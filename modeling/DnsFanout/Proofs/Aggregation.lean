import DnsFanout.Proofs.Merge
import Mathlib.Data.List.Induction
import Mathlib.Tactic.ByContra

/-! Which result a list of outcomes comes to, exactly. Merging keeps to the last reply with
addresses, so it does not notice outcomes that bring nothing, and in another order it gives the
same addresses. Outcomes may as well be taken in one by one as they arrive. -/

namespace DnsFanout

/-! ### One outcome after the other -/

/-- What is kept of the outcomes so far. -/
structure Tally where
  addresses : List Record := []
  frame : Option Message := none
  failure : Option Failure := none

namespace Tally

/-- A success becomes the frame if the addresses grow by it; the first failure stays. -/
def add (t : Tally) : Outcome → Tally
  | .success reply =>
    let addresses := t.addresses ++ reply.addresses
    { t with
      addresses
      frame := if t.addresses.length < addresses.length then some reply else t.frame }
  | .malformed _ => t
  | .failed cause => { t with failure := t.failure.or (some cause) }

def result (t : Tally) : Except Failure Message :=
  match t.frame with
  | some reply => .ok { reply with answers := t.addresses }
  | none => .error (t.failure.getD .noHealthyResolver)

def of (outcomes : List Outcome) : Tally := outcomes.foldl add {}

theorem of_concat (outcomes : List Outcome) (last : Outcome) :
    of (outcomes ++ [last]) = (of outcomes).add last := by
  rw [of, List.foldl_append]
  rfl

/-- The frame goes with the addresses: it changes exactly when they grow. -/
theorem of_eq (outcomes : List Outcome) :
    of outcomes = ⟨outcomes.flatMap Outcome.addresses, lastAnswer? outcomes,
      outcomes.findSome? Outcome.failure?⟩ := by
  induction outcomes using List.reverseRecOn with
  | nil => rfl
  | append_singleton outcomes last ih =>
    have haddresses : (outcomes ++ [last]).flatMap Outcome.addresses =
        outcomes.flatMap Outcome.addresses ++ last.addresses := by simp
    have hframe : lastAnswer? (outcomes ++ [last]) =
        last.contribution?.or (lastAnswer? outcomes) := by
      cases h : last.contribution? <;> simp [lastAnswer?, h]
    have hfailure : (outcomes ++ [last]).findSome? Outcome.failure? =
        (outcomes.findSome? Outcome.failure?).or last.failure? := by
      rw [List.findSome?_append, List.findSome?_singleton]
    rw [of_concat, ih, haddresses, hframe, hfailure]
    cases last with
    | success reply =>
      by_cases hnone : reply.addresses = []
      · simp [add, Outcome.addresses, Outcome.contribution?, Outcome.failure?, hnone]
      · have hgrows : 0 < reply.addresses.length := List.length_pos_iff.mpr hnone
        simp [add, Outcome.addresses, Outcome.contribution?, Outcome.failure?, hnone, hgrows]
    | malformed reply => simp [add, Outcome.addresses, Outcome.contribution?, Outcome.failure?]
    | failed cause => simp [add, Outcome.addresses, Outcome.contribution?, Outcome.failure?]

theorem result_of (outcomes : List Outcome) : (of outcomes).result = merge outcomes := by
  rw [of_eq, result, merge]
  rfl

end Tally

/-! ### Which reply it is -/

/-- The result of outcomes, told without the way to it. -/
structure Aggregate (outcomes : List Outcome) (result : Except Failure Message) : Prop where
  /-- The last reply with addresses carries the addresses of all, in their order. -/
  framed : (∃ reply, .success reply ∈ outcomes ∧ reply.addresses ≠ []) →
    ∃ before frame after, outcomes = before ++ .success frame :: after ∧ frame.addresses ≠ [] ∧
      (∀ reply, .success reply ∈ after → reply.addresses = []) ∧
      result = .ok { frame with answers := outcomes.flatMap Outcome.addresses }
  /-- Without addresses the first failure is told, or that there was none. -/
  failed : (∀ reply, .success reply ∈ outcomes → reply.addresses = []) →
    (∃ before cause after, outcomes = before ++ .failed cause :: after ∧
      (∀ earlier, .failed earlier ∉ before) ∧ result = .error cause) ∨
    (∀ cause, .failed cause ∉ outcomes) ∧ result = .error .noHealthyResolver

variable {outcomes other : List Outcome}

theorem lastAnswer?_eq_some {frame : Message} (h : lastAnswer? outcomes = some frame) :
    ∃ before after, outcomes = before ++ .success frame :: after ∧ frame.addresses ≠ [] ∧
      ∀ reply, .success reply ∈ after → reply.addresses = [] := by
  induction outcomes using List.reverseRecOn with
  | nil => cases h
  | append_singleton outcomes last ih =>
    cases hlast : last.contribution? with
    | some reply =>
      obtain ⟨rfl, hne⟩ := Outcome.contribution?_eq_some.mp hlast
      obtain rfl : reply = frame := by simpa [lastAnswer?, hlast] using h
      exact ⟨outcomes, [], rfl, hne, fun _ h => absurd h List.not_mem_nil⟩
    | none =>
      obtain ⟨before, after, rfl, hne, hafter⟩ := ih (by simpa [lastAnswer?, hlast] using h)
      refine ⟨before, after ++ [last], by simp, hne, fun reply hreply => ?_⟩
      rcases List.mem_append.mp hreply with hreply | hreply
      · exact hafter reply hreply
      · obtain rfl := List.mem_singleton.mp hreply
        by_contra hsome
        rw [Outcome.contribution?_eq_some.mpr ⟨rfl, hsome⟩] at hlast
        cases hlast

theorem Outcome.failure?_eq_some {outcome : Outcome} {cause : Failure} :
    outcome.failure? = some cause ↔ outcome = .failed cause := by
  cases outcome <;> simp [failure?]

theorem findSome?_failure? (outcomes : List Outcome) :
    (∃ before cause after, outcomes = before ++ .failed cause :: after ∧
      (∀ earlier, .failed earlier ∉ before) ∧
      outcomes.findSome? Outcome.failure? = some cause) ∨
    (∀ cause, .failed cause ∉ outcomes) ∧ outcomes.findSome? Outcome.failure? = none := by
  cases hfirst : outcomes.findSome? Outcome.failure? with
  | some cause =>
    obtain ⟨before, first, after, rfl, hfailure, hbefore⟩ :=
      List.findSome?_eq_some_iff.mp hfirst
    obtain rfl := Outcome.failure?_eq_some.mp hfailure
    refine .inl ⟨before, cause, after, rfl, fun earlier hearlier => ?_, rfl⟩
    cases hbefore _ hearlier
  | none =>
    refine .inr ⟨fun cause hcause => ?_, rfl⟩
    cases List.findSome?_eq_none_iff.mp hfirst _ hcause

theorem aggregate_merge (outcomes : List Outcome) : Aggregate outcomes (merge outcomes) where
  framed hsome := by
    obtain ⟨reply, hreply⟩ := merge_isOk_iff.mpr hsome
    obtain ⟨frame, hframe, rfl⟩ := merge_eq_ok_iff.mp hreply
    obtain ⟨before, after, hsplit, hne, hafter⟩ := lastAnswer?_eq_some hframe
    exact ⟨before, frame, after, hsplit, hne, hafter, hreply⟩
  failed hnone := by
    cases hresult : merge outcomes with
    | ok reply =>
      obtain ⟨frame, hin, hne⟩ := merge_isOk_iff.mp ⟨reply, hresult⟩
      exact absurd (hnone frame hin) hne
    | error cause =>
      have hcause := merge_eq_error hresult
      rcases findSome?_failure? outcomes with ⟨before, first, after, hsplit, hbefore, hfirst⟩ |
        ⟨hno, hfirst⟩
      · rw [hfirst] at hcause
        obtain rfl : first = cause := by simpa using hcause
        exact .inl ⟨before, first, after, hsplit, hbefore, rfl⟩
      · rw [hfirst] at hcause
        obtain rfl : cause = .noHealthyResolver := by simpa using hcause
        exact .inr ⟨hno, rfl⟩

/-! ### Outcomes that bring nothing -/

namespace Outcome

/-- The outcome brings neither an address nor a failure. -/
def isIdle : Outcome → Bool
  | .success reply => reply.addresses.isEmpty
  | .malformed _ => true
  | .failed _ => false

theorem isIdle_iff {outcome : Outcome} : outcome.isIdle = true ↔
    (∃ reply, outcome = .malformed reply) ∨
      ∃ reply, outcome = .success reply ∧ reply.addresses = [] := by
  cases outcome with
  | success reply => simp [isIdle]
  | malformed reply => simp [isIdle]
  | failed cause => simp [isIdle]

end Outcome

/-- The outcomes that count. -/
def telling (outcomes : List Outcome) : List Outcome := outcomes.filter fun o => !o.isIdle

theorem merge_telling (outcomes : List Outcome) : merge (telling outcomes) = merge outcomes := by
  have hall : Tally.of (telling outcomes) = Tally.of outcomes := by
    induction outcomes using List.reverseRecOn with
    | nil => rfl
    | append_singleton outcomes last ih =>
      have hconcat : telling (outcomes ++ [last]) =
          telling outcomes ++ if last.isIdle then [] else [last] := by
        cases h : last.isIdle <;> simp [telling, h]
      rw [hconcat, Tally.of_concat, ← ih]
      by_cases hidle : last.isIdle = true
      · -- an idle outcome leaves the tally as it is
        rw [if_pos hidle, List.append_nil]
        rcases Outcome.isIdle_iff.mp hidle with ⟨reply, rfl⟩ | ⟨reply, rfl, hnone⟩
        · rfl
        · simp [Tally.add, hnone]
      · rw [if_neg hidle, Tally.of_concat]
  rw [← Tally.result_of, hall, Tally.result_of]

/-! ### The same outcomes in another order -/

/-- What becomes of a result when the outcomes come in another order. -/
structure Reordered (outcomes : List Outcome) (result other : Except Failure Message) : Prop where
  /-- The same addresses in another order, in the frame of a reply that has some. -/
  ok : ∀ m, result = .ok m → ∃ m' frame, other = .ok m' ∧ m'.answers.Perm m.answers ∧
    .success frame ∈ outcomes ∧ frame.addresses ≠ [] ∧ m' = { frame with answers := m'.answers }
  /-- A failure of the outcomes, if they have one. -/
  error : ∀ cause, result = .error cause → ∃ cause', other = .error cause' ∧
    (.failed cause' ∈ outcomes ∨ (∀ c, .failed c ∉ outcomes) ∧ cause' = cause)

theorem merge_isOk_of_perm (h : outcomes.Perm other) :
    (∃ m, merge outcomes = .ok m) ↔ ∃ m, merge other = .ok m := by
  simp only [merge_isOk_iff, h.mem_iff]

theorem reordered_of_perm (h : outcomes.Perm other) :
    Reordered outcomes (merge outcomes) (merge other) where
  ok m hm := by
    obtain ⟨m', hm'⟩ := (merge_isOk_of_perm h).mp ⟨m, hm⟩
    obtain ⟨frame, hin, hne, heq⟩ := merge_eq_ok hm'
    have hanswers : m'.answers.Perm m.answers := by
      rw [merge_answers hm, merge_answers hm']
      exact (h.flatMap_right Outcome.addresses).symm
    refine ⟨m', frame, hm', hanswers, h.mem_iff.mpr hin, hne, ?_⟩
    rw [merge_answers hm']
    exact heq
  error cause hcause := by
    cases hother : merge other with
    | ok m' =>
      obtain ⟨m, hm⟩ := (merge_isOk_of_perm h).mpr ⟨m', hother⟩
      cases hcause.symm.trans hm
    | error cause' =>
      refine ⟨cause', rfl, ?_⟩
      have hfirst := merge_eq_error hcause
      have hsecond := merge_eq_error hother
      rcases findSome?_failure? other with ⟨before, c, after, hsplit, -, hc⟩ | ⟨hno, hnone⟩
      · rw [hc] at hsecond
        obtain rfl : c = cause' := by simpa using hsecond
        exact .inl (h.mem_iff.mpr (by simp [hsplit]))
      · have hno' : ∀ c, .failed c ∉ outcomes := fun c hc => hno c (h.mem_iff.mp hc)
        have hnone' : outcomes.findSome? Outcome.failure? = none :=
          ((findSome?_failure? outcomes).resolve_left
            fun ⟨before, c, after, hsplit, _⟩ => hno' c (by simp [hsplit])).2
        rw [hnone] at hsecond
        rw [hnone'] at hfirst
        obtain ⟨-, rfl⟩ := hsecond.resolve_left nofun
        obtain ⟨-, rfl⟩ := hfirst.resolve_left nofun
        exact .inr ⟨hno', rfl⟩

/-- The result of outcomes is that of taking them in one by one. It does not depend on idle ones,
and in another order only the order of the addresses and the frame can differ; any reply with
addresses may be the frame. -/
theorem merge_exact (outcomes : List Outcome) :
    Aggregate outcomes (merge outcomes) ∧
    (Tally.of outcomes).result = merge outcomes ∧
    (∀ other, telling other = telling outcomes → merge other = merge outcomes) ∧
    (∀ before idle after, outcomes = before ++ idle :: after → idle.isIdle = true →
      merge (before ++ after) = merge outcomes) ∧
    (∀ other, outcomes.Perm other → Reordered outcomes (merge outcomes) (merge other)) ∧
    ∀ frame, .success frame ∈ outcomes → frame.addresses ≠ [] →
      ∃ other, outcomes.Perm other ∧
        merge other = .ok { frame with answers := other.flatMap Outcome.addresses } := by
  have htelling {xs ys : List Outcome} (h : telling xs = telling ys) : merge xs = merge ys := by
    rw [← merge_telling xs, h, merge_telling]
  refine ⟨aggregate_merge outcomes, Tally.result_of outcomes, fun other h => htelling h, ?_,
    fun other h => reordered_of_perm h, fun frame hin hne => ?_⟩
  · rintro before idle after rfl hidle
    exact htelling (by simp [telling, hidle])
  · obtain ⟨before, after, rfl⟩ := List.append_of_mem hin
    refine ⟨before ++ after ++ [.success frame], ?_, ?_⟩
    · rw [List.append_assoc]
      exact (List.perm_append_singleton _ _).symm.append_left before
    · exact merge_eq_ok_iff.mpr ⟨frame, lastAnswer?_concat hne _, rfl⟩

end DnsFanout
