import DnsFanout.Outcome
import DnsFanout.Resolver

/-! One resolver's part in a query. A worker tries until the resolver answers or
its failures use up the budget; closed cached connections are free for a while,
and a truncated datagram is asked for again as a stream. -/

namespace DnsFanout

structure Worker where
  preference : Preference
  fails : Nat := 0
  /-- Closed connections since the last charged failure. -/
  uncounted : Nat := 0
deriving DecidableEq, Repr

namespace Worker

/-- Closed connections that are not charged. -/
def tolerance : Nat := 3

/-- The failures that end a worker; at least one even when failures are not held
against the resolver. -/
def budget (maxFails : UInt32) : Nat := max maxFails.toNat 1

inductive Next
  /-- Another attempt, nothing charged. -/
  | again (w : Worker)
  /-- One failure charged, and another attempt. -/
  | charged (w : Worker)
  | done (charged : Bool) (outcome : Outcome)
deriving DecidableEq

/-- A reply ends the worker: it belongs to the query, or a format error stands for
it. -/
def settle (request : Request) (reply : Message) : Outcome :=
  if request.matchesReply reply then .success reply else .malformed request.formatError

/-- What follows a failure that counts: the worker ends if the scope or the budget
does, and a cancelled query charges nothing. -/
def fail (maxFails : UInt32) (cancelled expired : Bool) (w : Worker) (cause : Failure) : Next :=
  if cancelled then .done false (.failed cause)
  else if budget maxFails ≤ w.fails + 1 ∨ expired then .done true (.failed cause)
  else .charged ⟨w.preference, w.fails + 1, 0⟩

/-- What follows the result of an attempt; `cancelled` and `expired` tell of the
scope at that instant. -/
def observe (request : Request) (maxFails : UInt32) (cancelled expired : Bool) (w : Worker) :
    Except Failure Message → Next
  | .error .closedConnection =>
    if w.uncounted < tolerance then .again { w with uncounted := w.uncounted + 1 }
    else w.fail maxFails cancelled expired .closedConnection
  | .error cause => w.fail maxFails cancelled expired cause
  | .ok reply =>
    if reply.truncated ∧ ¬w.preference.forceStream ∧ w.preference.preferDatagram then
      .again { w with preference.forceStream := true }
    else .done false (settle request reply)

/-- The attempts that can still be free of charge before the next failure. -/
def slack (w : Worker) : Nat :=
  (tolerance - w.uncounted) +
    if ¬w.preference.forceStream ∧ w.preference.preferDatagram then 1 else 0

theorem fail_ne_again {maxFails cancelled expired} {w w' : Worker} {cause} :
    w.fail maxFails cancelled expired cause ≠ .again w' := by
  intro h
  unfold fail at h
  split at h
  · cases h
  · split at h <;> cases h

theorem fails_of_fail_charged {maxFails cancelled expired} {w w' : Worker} {cause}
    (h : w.fail maxFails cancelled expired cause = .charged w') :
    w'.fails = w.fails + 1 ∧ w'.fails < budget maxFails := by
  unfold fail at h
  split at h
  · cases h
  · split at h
    · cases h
    · next hb =>
      cases h
      simp only [not_or] at hb
      exact ⟨rfl, Nat.lt_of_not_le hb.1⟩

theorem fails_of_observe_again {request maxFails cancelled expired} {w w' : Worker} {result}
    (h : w.observe request maxFails cancelled expired result = .again w') :
    w'.fails = w.fails ∧ w'.slack < w.slack := by
  unfold observe at h
  split at h
  · split at h
    · cases h
      refine ⟨rfl, ?_⟩
      simp only [slack]
      omega
    · exact absurd h fail_ne_again
  · exact absurd h fail_ne_again
  · split at h
    · next hc =>
      cases h
      refine ⟨rfl, ?_⟩
      simp [slack, hc]
    · cases h

theorem fails_of_observe_charged {request maxFails cancelled expired} {w w' : Worker} {result}
    (h : w.observe request maxFails cancelled expired result = .charged w') :
    w'.fails = w.fails + 1 ∧ w'.fails < budget maxFails := by
  unfold observe at h
  split at h
  · split at h
    · cases h
    · exact fails_of_fail_charged h
  · exact fails_of_fail_charged h
  · split at h <;> cases h

inductive Ending
  | settled (outcome : Outcome)
  | crashed (detail : String)

/-- A worker that crashed counts as a failure of its resolver; `number` tells the
workers of a query apart. -/
def Ending.outcome (number : Nat) : Ending → Outcome
  | settled o => o
  | crashed detail =>
    .failed (.workerFailed
      ("task " ++ toString number ++ " panicked with message \"" ++ detail ++ "\""))

/-- A worker that has ended. -/
structure Run (ρ : Type) where
  ending : Ending
  finished : Instant
  resolver : ρ

variable {ρ : Type} [Resolver ρ]

/-- Charges one failure to the resolver and asks for a probe, unless failures are
not held against it. -/
def charge (maxFails : UInt32) (r : ρ) : ρ :=
  let r := Resolver.recordFailure r
  if maxFails = 0 then r else Resolver.requestProbe r

/-- One attempt within the scope; a scope that is over starts none. -/
def attempt (scope : Scope) (request : Request) (w : Worker) (now : Instant) (r : ρ) :
    Option (Attempt × Instant) × ρ :=
  let within (work : Option (Attempt × Instant)) : Option (Attempt × Instant) :=
    (scope.race now work).map fun
      | (.ok a, t) => (a, t)
      | (.error cause, t) => (.answered (.error cause), t)
  if (scope.verdict? now).isSome then (within none, r)
  else
    let (work, r) := Resolver.attempt now scope request w.preference r
    (within work, r)

/-- Runs the worker to its end; none if an attempt never ends and neither does the
scope. -/
def run (maxFails : UInt32) (scope : Scope) (request : Request) (w : Worker) (now : Instant)
    (r : ρ) : Option (Run ρ) :=
  match w.attempt scope request now r with
  | (none, _) => none
  | (some (.crashed detail, now), r) => some ⟨.crashed detail, now, r⟩
  | (some (.answered result, now), r) =>
    match _h : w.observe request maxFails (scope.isCancelled now) (scope.isExpired now) result with
    | .again w => run maxFails scope request w now r
    | .charged w => run maxFails scope request w now (charge maxFails r)
    | .done charged outcome =>
      some ⟨.settled outcome, now, if charged then charge maxFails r else r⟩
termination_by (budget maxFails - w.fails, w.slack)
decreasing_by
  · obtain ⟨hf, hs⟩ := fails_of_observe_again _h
    rw [hf]
    exact Prod.Lex.right _ hs
  · obtain ⟨hf, hb⟩ := fails_of_observe_charged _h
    exact Prod.Lex.left _ _ (by omega)

end Worker

end DnsFanout
