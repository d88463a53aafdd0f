import DnsFanout.Outcome

/-! What a merged reply holds: the addresses of all successes, in the frame of one of
them that has some. -/

namespace DnsFanout

namespace Outcome

theorem contribution?_eq_some {outcome : Outcome} {reply : Message} :
    outcome.contribution? = some reply ↔ outcome = .success reply ∧ reply.addresses ≠ [] := by
  cases outcome with
  | success other =>
    by_cases h : other.addresses = []
    · simp only [contribution?, h, if_true, reduceCtorEq, success.injEq, false_iff, not_and]
      rintro rfl
      exact not_not_intro h
    · simp only [contribution?, h, if_false, Option.some.injEq, success.injEq]
      constructor
      · rintro rfl
        exact ⟨rfl, h⟩
      · exact fun hh => hh.1
  | malformed other => simp [contribution?]
  | failed cause => simp [contribution?]

theorem mem_addresses {outcome : Outcome} {record : Record} :
    record ∈ outcome.addresses ↔ ∃ reply, outcome = .success reply ∧ record ∈ reply.addresses := by
  cases outcome <;> simp [addresses]

end Outcome

variable {outcomes : List Outcome} {reply : Message}

/-- The last reply with addresses. -/
def lastAnswer? (outcomes : List Outcome) : Option Message :=
  (outcomes.filterMap Outcome.contribution?).getLast?

theorem lastAnswer?_mem {frame : Message} (h : lastAnswer? outcomes = some frame) :
    .success frame ∈ outcomes ∧ frame.addresses ≠ [] := by
  obtain ⟨outcome, hin, hc⟩ := List.mem_filterMap.mp (List.mem_of_getLast? h)
  obtain ⟨rfl, hne⟩ := Outcome.contribution?_eq_some.mp hc
  exact ⟨hin, hne⟩

theorem lastAnswer?_concat (h : reply.addresses ≠ []) (outcomes : List Outcome) :
    lastAnswer? (outcomes ++ [.success reply]) = some reply := by
  have hone : Outcome.contribution? (.success reply) = some reply :=
    Outcome.contribution?_eq_some.mpr ⟨rfl, h⟩
  simp [lastAnswer?, hone]

theorem merge_eq_ok_iff : merge outcomes = .ok reply ↔ ∃ frame, lastAnswer? outcomes = some frame ∧
    reply = { frame with answers := outcomes.flatMap Outcome.addresses } := by
  unfold merge lastAnswer?
  split
  · next frame hframe => simp [hframe, eq_comm]
  · next hnone => simp [hnone]

theorem merge_eq_ok (h : merge outcomes = .ok reply) :
    ∃ frame, .success frame ∈ outcomes ∧ frame.addresses ≠ [] ∧
      reply = { frame with answers := outcomes.flatMap Outcome.addresses } := by
  obtain ⟨frame, hlast, rfl⟩ := merge_eq_ok_iff.mp h
  obtain ⟨hin, hne⟩ := lastAnswer?_mem hlast
  exact ⟨frame, hin, hne, rfl⟩

theorem merge_answers (h : merge outcomes = .ok reply) :
    reply.answers = outcomes.flatMap Outcome.addresses := by
  obtain ⟨frame, -, -, rfl⟩ := merge_eq_ok h
  rfl

theorem merge_isOk_iff : (∃ reply, merge outcomes = .ok reply) ↔
    ∃ frame, .success frame ∈ outcomes ∧ frame.addresses ≠ [] := by
  constructor
  · rintro ⟨reply, h⟩
    obtain ⟨frame, hin, hne, -⟩ := merge_eq_ok h
    exact ⟨frame, hin, hne⟩
  · rintro ⟨frame, hin, hne⟩
    have hmem : frame ∈ outcomes.filterMap Outcome.contribution? :=
      List.mem_filterMap.mpr ⟨_, hin, Outcome.contribution?_eq_some.mpr ⟨rfl, hne⟩⟩
    have hlast := List.getLast?_eq_some_getLast (List.ne_nil_of_mem hmem)
    exact ⟨_, merge_eq_ok_iff.mpr ⟨_, hlast, rfl⟩⟩

/-- Without a reply the first failure is told, or that no resolver was healthy. -/
theorem merge_eq_error {cause : Failure} (h : merge outcomes = .error cause) :
    outcomes.findSome? Outcome.failure? = some cause ∨
      outcomes.findSome? Outcome.failure? = none ∧ cause = .noHealthyResolver := by
  unfold merge at h
  split at h
  · cases h
  · cases hf : outcomes.findSome? Outcome.failure? with
    | none =>
      rw [hf] at h
      exact .inr ⟨rfl, (Except.error.inj h).symm⟩
    | some first =>
      rw [hf] at h
      exact .inl (congrArg some (Except.error.inj h))

end DnsFanout
