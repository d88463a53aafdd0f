import DnsFanout.Scope

/-! When a scope is over, and how work raced against it ends. -/

namespace DnsFanout.Scope

theorem verdict?_eq_none {s : Scope} {t : Instant} :
    s.verdict? t = none ↔ s.isCancelled t = false ∧ s.isExpired t = false := by
  unfold verdict?
  cases s.isCancelled t <;> cases s.isExpired t <;> simp

theorem verdict?_eq_none_iff {s : Scope} {t : Instant} :
    s.verdict? t = none ↔ ∀ stop, s.stop? = some stop → t < stop := by
  rw [verdict?_eq_none]
  obtain ⟨deadline, cancelled⟩ := s
  cases deadline with
  | none => cases cancelled <;> simp [isCancelled, isExpired, stop?]
  | some d =>
    cases cancelled with
    | none => simp [isCancelled, isExpired, stop?]
    | some c =>
      -- the scope ends at the earlier of the two
      simp only [isCancelled, isExpired, stop?, Option.any_some, decide_eq_false_iff_not,
        Nat.not_le, Option.some.injEq, forall_eq']
      exact and_comm.trans Nat.lt_min.symm

theorem verdict?_isSome {s : Scope} {stop t : Instant} (h : s.stop? = some stop) (ht : stop ≤ t) :
    ∃ cause, s.verdict? t = some cause := by
  cases hv : s.verdict? t with
  | some cause => exact ⟨cause, rfl⟩
  | none =>
    have hlt := verdict?_eq_none_iff.mp hv stop h
    exact absurd hlt (Nat.not_lt.mpr ht)

theorem verdict?_mono {s : Scope} {t u : Instant} (h : s.verdict? u = none) (htu : t ≤ u) :
    s.verdict? t = none := by
  rw [verdict?_eq_none_iff] at h ⊢
  intro stop hstop
  exact Nat.lt_of_le_of_lt htu (h stop hstop)

theorem verdict?_eq_some {s : Scope} {t : Instant} {cause : Failure}
    (h : s.verdict? t = some cause) :
    (s.isCancelled t = true ∧ cause = .cancelled) ∨
      (s.isCancelled t = false ∧ s.isExpired t = true ∧ cause = .timeout) := by
  unfold verdict? at h
  cases hc : s.isCancelled t <;> cases he : s.isExpired t <;> simp_all

@[simp] theorem verdict?_unbounded (t : Instant) : ({} : Scope).verdict? t = none := rfl

/-- How a race ends: at once if the scope is over, with the work if that comes first, and
otherwise with the scope. -/
theorem race_eq_some {α : Type} {s : Scope} {now t : Instant} {work : Option (α × Instant)}
    {result : Except Failure α} (h : s.race now work = some (result, t)) :
    (∃ cause, s.verdict? now = some cause ∧ result = .error cause ∧ t = now) ∨
    (∃ a, s.verdict? now = none ∧ work = some (a, t) ∧ result = .ok a ∧ s.verdict? t = none) ∨
    (∃ cause, s.verdict? now = none ∧ s.stop? = some t ∧ s.verdict? t = some cause ∧
      result = .error cause) := by
  unfold race at h
  split at h
  case h_1 cause hv => exact .inl ⟨cause, hv, by simp_all⟩
  case h_2 hv =>
    have stopped {stop : Instant} (hs : s.stop? = some stop)
        (h : ((.error ((s.verdict? stop).getD .timeout), stop) : Except Failure α × Instant) =
          (result, t)) : ∃ cause, s.verdict? now = none ∧ s.stop? = some t ∧
            s.verdict? t = some cause ∧ result = .error cause := by
      obtain ⟨cause, hcause⟩ := verdict?_isSome hs (Nat.le_refl stop)
      rw [hcause] at h
      cases h
      exact ⟨cause, hv, hs, hcause, rfl⟩
    split at h
    case h_1 => cases h
    case h_2 a u hstop =>
      cases h
      refine .inr (.inl ⟨a, hv, rfl, rfl, verdict?_eq_none_iff.mpr ?_⟩)
      simp [hstop]
    case h_3 stop hstop => exact .inr (.inr (stopped hstop (Option.some.inj h)))
    case h_4 stop a u hstop =>
      split at h
      · next hlt =>
        cases h
        refine .inr (.inl ⟨a, hv, rfl, rfl, verdict?_eq_none_iff.mpr ?_⟩)
        simpa [hstop] using hlt
      · exact .inr (.inr (stopped hstop (Option.some.inj h)))

theorem race_isSome {α : Type} {s : Scope} {now stop : Instant} (h : s.stop? = some stop)
    (work : Option (α × Instant)) : (s.race now work).isSome := by
  unfold race
  split
  · rfl
  · rw [h]
    cases work <;> rfl

end DnsFanout.Scope
