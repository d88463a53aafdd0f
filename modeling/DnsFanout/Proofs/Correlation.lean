import DnsFanout.Proofs.Crew.Serial

/-! Only data that belongs to the query is passed on. A worker takes for an answer the
last thing that it heard, and only if it belongs to the query; a merged reply has its
frame and all its records from such answers. -/

namespace DnsFanout

open Worker

variable {ρ η : Type} [Resolver ρ] {maxFails : UInt32} {scope : Scope} {request : Request}

/-- The records of a reply do not matter for whether it belongs to a query. -/
theorem Request.matchesReply_answers (request : Request) (reply : Message)
    (answers : List Record) :
    request.matchesReply { reply with answers } = request.matchesReply reply := rfl

namespace Worker

namespace Desk

/-- The last attempt was sent and the resolver gave this reply, leaving itself as it is. -/
def Gave (scope : Scope) (request : Request) (d : Desk ρ) (reply : Message) : Prop :=
  ∃ before preference now t r, d.deeds = before ++ [.sent preference, .heard (.ok reply)] ∧
    Resolver.attempt now scope request preference r =
      (some (.answered (.ok reply), t), d.resolver)

/-- What an attempt under way will come to is what the resolver gave, and what is taken for
an answer is what it gave last. -/
def Honest (scope : Scope) (request : Request) (d : Desk ρ) : Prop :=
  match d.stage with
  | .waiting w (some (.answered (.ok reply))) =>
    (∃ before, d.deeds = before ++ [.sent w.preference]) ∧
      ∃ now t r, Resolver.attempt now scope request w.preference r =
        (some (.answered (.ok reply), t), d.resolver)
  | .charging _ result | .asking _ result | .judging _ result => ∃ cause, result = .error cause
  | .ended (.settled (.success reply)) => d.Gave scope request reply ∧
      request.matchesReply reply = true
  | _ => True

theorem honest_hear {now : Instant} {w : Worker} {result : Except Failure Message} {r : ρ}
    {deeds : List Deed}
    (h : ∀ reply, result = .ok reply → ∃ before preference now t s,
      deeds = before ++ [.sent preference] ∧
        Resolver.attempt now scope request preference s = (some (.answered (.ok reply), t), r)) :
    (hear maxFails scope request now w result r deeds).Honest scope request := by
  cases ho : w.observe request maxFails (scope.isCancelled now) (scope.isExpired now) result with
  | again w' => simp [Honest, hear, ho]
  | charged w' =>
    simp only [Honest, hear, ho]
    exact error_of_charges (by rw [ho]; rfl)
  | done charged outcome =>
    cases charged with
    | true =>
      simp only [Honest, hear, ho]
      exact error_of_charges (by rw [ho]; rfl)
    | false =>
      simp only [Honest, hear, ho]
      cases outcome with
      | success reply =>
        obtain ⟨rfl, hmatch⟩ := observe_eq_success ho
        obtain ⟨before, preference, now, t, s, hdeeds, hr⟩ := h reply rfl
        exact ⟨⟨before, preference, now, t, s, by simp [hdeeds], hr⟩, hmatch⟩
      | malformed reply => trivial
      | failed cause => trivial

theorem honest_hear_error {now : Instant} {w : Worker} {cause : Failure} {r : ρ}
    {deeds : List Deed} :
    (hear maxFails scope request now w (.error cause) r deeds).Honest scope request := by
  refine honest_hear fun reply hreply => ?_
  cases hreply

theorem honest_turn {d : Desk ρ} (now : Instant) (h : d.Honest scope request) :
    (d.turn maxFails scope request now).Honest scope request := by
  obtain ⟨stage, r, deeds⟩ := d
  cases stage with
  | ready w =>
    cases hv : scope.verdict? now with
    | some cause =>
      simp only [turn, hv]
      exact honest_hear_error
    | none =>
      rcases hr : Resolver.attempt now scope request w.preference r with ⟨work, r'⟩
      simp only [turn, hv, hr, Honest]
      cases work with
      | none => trivial
      | some ended =>
        obtain ⟨a, t⟩ := ended
        cases a with
        | crashed detail => trivial
        | answered result =>
          cases result with
          | error cause => trivial
          | ok reply => exact ⟨⟨deeds, rfl⟩, now, t, r, hr⟩
  | waiting w work =>
    cases hv : scope.verdict? now with
    | some cause =>
      simp only [turn, hv]
      exact honest_hear_error
    | none =>
      cases work with
      | none => simpa only [turn, hv] using h
      | some a =>
        cases a with
        | crashed detail => simp [turn, hv, Honest]
        | answered result =>
          simp only [turn, hv]
          refine honest_hear fun reply hreply => ?_
          subst hreply
          obtain ⟨⟨before, hbefore⟩, now, t, s, hr⟩ := h
          exact ⟨before, w.preference, now, t, s, hbefore, hr⟩
  | charging w result => exact h
  | asking w result =>
    simp only [turn]
    split <;> exact h
  | judging w result =>
    -- what was charged is a failure, and a failure does not become a success
    obtain ⟨cause, rfl⟩ := h
    simp only [turn, judge, Honest]
    cases ho : w.observe request maxFails false (scope.isExpired now) (.error cause) with
    | again w' => trivial
    | charged w' => trivial
    | done charged outcome =>
      cases outcome with
      | success reply => cases (observe_eq_success ho).1
      | malformed reply => trivial
      | failed cause => trivial
  | ended ending => exact h

theorem honest_turns (nows : List Instant) {d : Desk ρ} (h : d.Honest scope request) :
    (d.turns maxFails scope request nows).Honest scope request := by
  induction nows generalizing d with
  | nil => exact h
  | cons now nows ih => exact ih (honest_turn now h)

end Desk

end Worker

/-- A reply with nothing in it but what belongs to the query: its frame does, and each of
its records is an address that a live resolver gave last, in a reply that belongs to the
query. -/
structure Forwarder.Vouched (f : Forwarder ρ η) (scope : Scope) (request : Request) (c : Crew ρ)
    (reply : Message) : Prop where
  frame : request.matchesReply reply = true
  nonempty : reply.answers ≠ []
  record : ∀ record ∈ reply.answers, record.type.isAddress = true ∧
    ∃ k r d given, (r, k) ∈ f.live ∧ c.desk? k = some d ∧ d.Gave scope request given ∧
      request.matchesReply given = true ∧ record ∈ given.answers

namespace Crew

theorem honest_run {f : Forwarder ρ η} {schedule : List Turn} {k : Nat} {d : Desk ρ}
    (h : (f.crew.run f.maxFails scope request schedule).desk? k = some d) :
    d.Honest scope request ∧ ∃ r, (r, k) ∈ f.live := by
  obtain ⟨r, hlive, -, rfl⟩ := Forwarder.desk?_crew_of_run h
  exact ⟨Desk.honest_turns _ trivial, r, hlive⟩

theorem gave_of_outcomes {f : Forwarder ρ η} {schedule : List Turn} {reply : Message}
    (h : .success reply ∈ (f.crew.run f.maxFails scope request schedule).outcomes) :
    request.matchesReply reply = true ∧ ∃ k r d, (r, k) ∈ f.live ∧
      (f.crew.run f.maxFails scope request schedule).desk? k = some d ∧
      d.Gave scope request reply := by
  obtain ⟨k, d, ending, hdesk, hstage, houtcome⟩ := Forwarder.mem_outcomes_run.mp h
  obtain ⟨hhonest, r, hlive⟩ := honest_run hdesk
  cases ending with
  | crashed detail => cases houtcome
  | settled outcome =>
    cases houtcome
    simp only [Desk.Honest, hstage] at hhonest
    exact ⟨hhonest.2, k, r, d, hlive, hdesk, hhonest.1⟩

theorem vouched_of_result {f : Forwarder ρ η} {schedule : List Turn} {reply : Message}
    (h : (f.crew.run f.maxFails scope request schedule).result = .ok reply) :
    f.Vouched scope request (f.crew.run f.maxFails scope request schedule) reply := by
  obtain ⟨frame, hframe, hne, rfl⟩ := merge_eq_ok h
  constructor
  case frame =>
    rw [Request.matchesReply_answers]
    exact (gave_of_outcomes hframe).1
  case nonempty =>
    obtain ⟨record, hrecord⟩ := List.exists_mem_of_ne_nil _ hne
    exact List.ne_nil_of_mem (List.mem_flatMap.mpr ⟨_, hframe, hrecord⟩)
  case record =>
    intro record hrecord
    obtain ⟨outcome, hin, hmem⟩ := List.mem_flatMap.mp hrecord
    obtain ⟨given, rfl, hgiven⟩ := Outcome.mem_addresses.mp hmem
    obtain ⟨hmatch, k, r, d, hlive, hdesk, hgave⟩ := gave_of_outcomes hin
    obtain ⟨hanswers, haddress⟩ := List.mem_filter.mp hgiven
    exact ⟨haddress, k, r, d, given, hlive, hdesk, hgave, hmatch, hanswers⟩

end Crew

end DnsFanout
