import DnsFanout.Worker

/-! What a worker makes of the result of an attempt, case by case. Whatever is said of a run
is said of these cases. -/

namespace DnsFanout.Worker

/-- A truncated datagram may still be asked for again. -/
def Escalates (w : Worker) : Prop := ¬w.preference.forceStream ∧ w.preference.preferDatagram

instance (w : Worker) : Decidable w.Escalates := inferInstanceAs (Decidable (_ ∧ _))

variable {request : Request} {maxFails : UInt32} {cancelled expired : Bool} {w w' : Worker}
  {result : Except Failure Message}

/-- All that may follow a result. A closed connection counts as a failure once the tolerance
is used up. -/
inductive Observed (request : Request) (maxFails : UInt32) (cancelled expired : Bool)
    (w : Worker) : Except Failure Message → Next → Prop
  | free (hfree : w.uncounted < tolerance) :
    Observed request maxFails cancelled expired w (.error .closedConnection)
      (.again { w with uncounted := w.uncounted + 1 })
  | escalated {reply : Message} (htruncated : reply.truncated = true) (hescalates : w.Escalates) :
    Observed request maxFails cancelled expired w (.ok reply)
      (.again { w with preference.forceStream := true })
  | settled {reply : Message} (hwhole : reply.truncated = true → ¬w.Escalates) :
    Observed request maxFails cancelled expired w (.ok reply) (.done false (settle request reply))
  | abandoned {cause : Failure} (hcounts : cause = .closedConnection → tolerance ≤ w.uncounted)
    (hcancelled : cancelled = true) :
    Observed request maxFails cancelled expired w (.error cause) (.done false (.failed cause))
  | exhausted {cause : Failure} (hcounts : cause = .closedConnection → tolerance ≤ w.uncounted)
    (hcancelled : cancelled = false) (hover : budget maxFails ≤ w.fails + 1 ∨ expired = true) :
    Observed request maxFails cancelled expired w (.error cause) (.done true (.failed cause))
  | charged {cause : Failure} (hcounts : cause = .closedConnection → tolerance ≤ w.uncounted)
    (hcancelled : cancelled = false) (hmore : w.fails + 1 < budget maxFails)
    (hopen : expired = false) :
    Observed request maxFails cancelled expired w (.error cause)
      (.charged ⟨w.preference, w.fails + 1, 0⟩)

theorem observed_fail {cause : Failure}
    (hcounts : cause = .closedConnection → tolerance ≤ w.uncounted) :
    Observed request maxFails cancelled expired w (.error cause)
      (w.fail maxFails cancelled expired cause) := by
  unfold fail
  split
  · next hcancelled => exact .abandoned hcounts hcancelled
  · next hcancelled =>
    have hcancelled : cancelled = false := by simpa using hcancelled
    split
    · next hover => exact .exhausted hcounts hcancelled hover
    · next hmore =>
      obtain ⟨hmore, hopen⟩ := not_or.mp hmore
      exact .charged hcounts hcancelled (Nat.lt_of_not_le hmore) (by simpa using hopen)

theorem observed (request : Request) (maxFails : UInt32) (cancelled expired : Bool) (w : Worker)
    (result : Except Failure Message) : Observed request maxFails cancelled expired w result
      (w.observe request maxFails cancelled expired result) := by
  unfold observe
  split
  · split
    · next hfree => exact .free hfree
    · next hspent => exact observed_fail fun _ => Nat.le_of_not_lt hspent
  · next hother => exact observed_fail fun h => absurd h hother
  · split
    · next h => exact .escalated h.1 h.2
    · next h => exact .settled fun htruncated hescalates => h ⟨htruncated, hescalates⟩

theorem observe_closed (h : w.uncounted < tolerance) (request : Request) (maxFails : UInt32)
    (cancelled expired : Bool) :
    w.observe request maxFails cancelled expired (.error .closedConnection) =
      .again { w with uncounted := w.uncounted + 1 } := if_pos h

theorem of_observe_again (h : w.observe request maxFails cancelled expired result = .again w') :
    (result = .error .closedConnection ∧ w' = { w with uncounted := w.uncounted + 1 }) ∨
      (w.Escalates ∧ w' = { w with preference.forceStream := true }) := by
  have hcase := observed request maxFails cancelled expired w result
  rw [h] at hcase
  cases hcase with
  | free hfree => exact .inl ⟨rfl, rfl⟩
  | escalated htruncated hescalates => exact .inr ⟨hescalates, rfl⟩

theorem of_observe_charged (h : w.observe request maxFails cancelled expired result = .charged w') :
    w' = ⟨w.preference, w.fails + 1, 0⟩ := by
  have hcase := observed request maxFails cancelled expired w result
  rw [h] at hcase
  cases hcase with
  | charged hcounts hcancelled hmore hopen => rfl

theorem of_observe_failed {cause : Failure} {charged : Bool}
    (h : w.observe request maxFails cancelled expired result = .done charged (.failed cause)) :
    result = .error cause := by
  have hcase := observed request maxFails cancelled expired w result
  rw [h] at hcase
  generalize hnext : Next.done charged (.failed cause) = next at hcase
  cases hcase with
  | settled hwhole =>
    unfold settle at hnext
    split at hnext <;> cases hnext
  | abandoned hcounts hcancelled => cases hnext; rfl
  | exhausted hcounts hcancelled hover => cases hnext; rfl
  | _ => cases hnext

theorem observe_eq_success {charged : Bool} {reply : Message}
    (h : w.observe request maxFails cancelled expired result = .done charged (.success reply)) :
    result = .ok reply ∧ request.matchesReply reply = true := by
  have hcase := observed request maxFails cancelled expired w result
  rw [h] at hcase
  generalize hnext : Next.done charged (.success reply) = next at hcase
  cases hcase with
  | settled hwhole =>
    unfold settle at hnext
    split at hnext
    · next hmatch =>
      cases hnext
      exact ⟨rfl, hmatch⟩
    · cases hnext
  | _ => cases hnext

/-- The result counts as a failure. -/
def Next.charges : Next → Bool
  | .charged _ | .done true _ => true
  | .again _ | .done false _ => false

/-- The worker that makes the next attempt. -/
def Next.worker? : Next → Option Worker
  | .again w | .charged w => some w
  | .done _ _ => none

theorem Observed.of_charges {next : Next}
    (h : Observed request maxFails cancelled expired w result next)
    (hcharges : next.charges = true) : cancelled = false ∧ ∃ cause, result = .error cause := by
  cases h with
  | exhausted hcounts hcancelled hover => exact ⟨hcancelled, _, rfl⟩
  | charged hcounts hcancelled hmore hopen => exact ⟨hcancelled, _, rfl⟩
  | _ => cases hcharges

theorem not_cancelled_of_charges
    (h : (w.observe request maxFails cancelled expired result).charges = true) :
    cancelled = false :=
  ((observed request maxFails cancelled expired w result).of_charges h).1

theorem error_of_charges
    (h : (w.observe request maxFails cancelled expired result).charges = true) :
    ∃ cause, result = .error cause :=
  ((observed request maxFails cancelled expired w result).of_charges h).2

end DnsFanout.Worker
