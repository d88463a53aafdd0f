import DnsFanout.Proofs.Address.Dotted

/-! Groups between colons: the texts that are read as groups, up to the end of a text or to
a double colon, and the run of zero groups that a double colon stands for. -/

namespace DnsFanout.Net

open Text

/-- One to four hexadecimal digits. -/
structure IsGroup (g : UInt16) (s : List Char) : Prop where
  ne_nil : s ≠ []
  length_le : s.length ≤ 4
  digits : ∀ c ∈ s, isDigit 16 c = true
  value : ofDigits 16 s = g.toNat

/-- The colon that leads every group but the first. -/
def lead (first : Bool) : List Char := if first then [] else [':']

/-- Groups with colons between them. A dotted address may stand at the end for the last two. -/
inductive AreGroups : (first dotted : Bool) → List UInt16 → List Char → Prop
  | none (first : Bool) : AreGroups first false [] []
  | dotted (first : Bool) (ip : IPv4) : AreGroups first true ip.toGroups (lead first ++ ip.toChars)
  | group {first dotted : Bool} {g : UInt16} {groups : List UInt16} {s more : List Char}
    (h : IsGroup g s) (hmore : AreGroups false dotted groups more) :
    AreGroups first dotted (g :: groups) (lead first ++ (s ++ more))

/-! ### One group -/

theorem isGroup_digits (g : UInt16) : IsGroup g (Text.digits 16 g.toNat) where
  ne_nil := digits_ne_nil _
  length_le := length_digits_le (by decide) (by decide) (Nat.lt_of_lt_of_eq g.toNat_lt (by decide))
  digits _ hc := isDigit_of_mem_digits (by decide) (by decide) hc
  value := ofDigits_digits (by decide) (by decide) g.toNat

theorem IsGroup.dot_notMem {g : UInt16} {s : List Char} (h : IsGroup g s) : '.' ∉ s := fun hmem =>
  absurd (h.digits '.' hmem) (by decide)

theorem readGroup_of_isGroup {g : UInt16} {s rest : List Char} (h : IsGroup g s)
    (hrest : Ends 16 rest) : readGroup (s ++ rest) = some (g, rest) := by
  simp only [readGroup, takeWhile_append_ends h.digits hrest, dropWhile_append_ends h.digits hrest,
    h.value]
  rw [if_neg (by simp [h.ne_nil, h.length_le])]
  simp

theorem isGroup_of_readGroup {s rest : List Char} {g : UInt16}
    (h : readGroup s = some (g, rest)) : ∃ ds, IsGroup g ds ∧ s = ds ++ rest := by
  simp only [readGroup, Option.ite_none_left_eq_some, not_or, Nat.not_lt, Option.some.injEq,
    Prod.mk.injEq] at h
  obtain ⟨⟨hne, hlength⟩, rfl, rfl⟩ := h
  have hdigits : ∀ c ∈ s.takeWhile (isDigit 16), isDigit 16 c = true := isDigit_of_mem_takeWhile
  have hlt := ofDigits_lt hdigits
  have hmax : 16 ^ (s.takeWhile (isDigit 16)).length ≤ 16 ^ 4 :=
    Nat.pow_le_pow_right (by decide) hlength
  refine ⟨_, ⟨hne, hlength, hdigits, ?_⟩, List.takeWhile_append_dropWhile.symm⟩
  simp only [Nat.toUInt16_eq, UInt16.toNat_ofNat']
  omega

/-! ### Runs of groups -/

/-- What follows a group: the end of the text or a colon. -/
def Closed (rest : List Char) : Prop := rest = [] ∨ ∃ more, rest = ':' :: more

theorem Closed.ends {rest : List Char} (h : Closed rest) : Ends 16 rest ∧ Ends 10 rest := by
  rcases h with rfl | ⟨more, rfl⟩
  · exact ⟨ends_nil, ends_nil⟩
  · exact ⟨ends_cons.mpr (by decide), ends_cons.mpr (by decide)⟩

theorem Closed.ne_dot {rest : List Char} (h : Closed rest) : rest.head? ≠ some '.' := by
  rcases h with rfl | ⟨more, rfl⟩ <;> simp

/-- Where no group is, neither at once nor behind a colon. -/
def Over (rest : List Char) : Prop := rest = [] ∨ ∃ more, rest = ':' :: ':' :: more

theorem Over.closed {rest : List Char} (h : Over rest) : Closed rest := by
  rcases h with rfl | ⟨more, rfl⟩
  · exact .inl rfl
  · exact .inr ⟨_, rfl⟩

namespace AreGroups

variable {first dotted : Bool} {groups : List UInt16} {s rest : List Char}

theorem closed (h : AreGroups false dotted groups s) (hrest : Closed rest) : Closed (s ++ rest) := by
  cases h with
  | none => exact hrest
  | dotted ip => exact .inr ⟨_, rfl⟩
  | group => exact .inr ⟨_, rfl⟩

/-- The text of a run does not begin with a dotted address, unless it is one. -/
theorem readIPv4_eq_none (h : AreGroups true dotted groups s)
    (hgroups : dotted = true → 2 < groups.length) (hrest : Closed rest) :
    readIPv4 (s ++ rest) = Option.none := by
  cases h with
  | none => exact readIPv4_append_eq_none List.not_mem_nil hrest.ends.2 hrest.ne_dot
  | dotted ip => exact absurd (hgroups rfl) (Nat.lt_irrefl 2)
  | group hg hmore =>
    have hclosed := hmore.closed hrest
    simp only [lead, if_true, List.nil_append, List.append_assoc]
    exact readIPv4_append_eq_none hg.dot_notMem hclosed.ends.2 hclosed.ne_dot

end AreGroups

theorem readGroups_over {rest : List Char} (h : Over rest) (room : Nat) (first : Bool) :
    readGroups room first rest = ⟨[], false, rest⟩ := by
  have hcolon (more : List Char) : readIPv4 (':' :: more) = none :=
    readIPv4_append_eq_none List.not_mem_nil (ends_cons.mpr (by decide)) (by simp)
  have hnone (more : List Char) : readGroup (':' :: more) = none := by
    simp [readGroup, show isDigit 16 ':' = false by decide]
  have hempty : readIPv4 [] = none ∧ readGroup [] = none := by decide
  cases room with
  | zero => rfl
  | succ room =>
    rcases h with rfl | ⟨more, rfl⟩ <;> cases first <;>
      simp [readGroups, readChar, hcolon, hnone, hempty]

theorem readGroups_of_areGroups {first dotted : Bool} {groups : List UInt16} {s rest : List Char}
    (h : AreGroups first dotted groups s) (hrest : Over rest) {room : Nat}
    (hroom : groups.length ≤ room) :
    readGroups room first (s ++ rest) = ⟨groups, dotted, rest⟩ := by
  induction h generalizing room with
  | none first => exact readGroups_over hrest room first
  | dotted first ip =>
    obtain ⟨room, rfl⟩ : ∃ n, room = n + 2 := ⟨room - 2, by simp [IPv4.toGroups] at hroom; omega⟩
    have hread := readIPv4_toChars ip hrest.closed.ends.2
    cases first <;> simp [readGroups, lead, hread]
  | @group first dotted g groups s more hg hmore ih =>
    obtain ⟨room, rfl⟩ : ∃ n, room = n + 1 := ⟨room - 1, by simp at hroom; omega⟩
    have hclosed := hmore.closed hrest.closed
    have hplain : readIPv4 (s ++ (more ++ rest)) = none :=
      readIPv4_append_eq_none hg.dot_notMem hclosed.ends.2 hclosed.ne_dot
    have hgroup := readGroup_of_isGroup hg hclosed.ends.1
    have hrun := ih (Nat.le_of_succ_le_succ hroom)
    cases first <;> simp [readGroups, lead, hplain, hgroup, hrun]

theorem areGroups_readGroups (room : Nat) (first : Bool) (s : List Char) :
    let run := readGroups room first s
    run.groups.length ≤ room ∧
      ∃ used, AreGroups first run.dotted run.groups used ∧ s = used ++ run.rest := by
  induction room generalizing first s with
  | zero => exact ⟨Nat.le_refl 0, [], .none first, rfl⟩
  | succ room ih =>
    rw [readGroups]
    dsimp only
    split
    · exact ⟨Nat.zero_le _, [], .none first, rfl⟩
    · next t ht =>
      have hs : s = lead first ++ t := by
        cases first with
        | true => exact Option.some.inj ht
        | false => exact readChar_eq_some ht
      split
      · next ip rest hip =>
        obtain ⟨hroom, hip⟩ := Option.ite_none_left_eq_some.mp hip
        refine ⟨by simp [IPv4.toGroups]; omega, _, .dotted first ip, ?_⟩
        rw [hs, readIPv4_eq_some hip, List.append_assoc]
      · split
        · exact ⟨Nat.zero_le _, [], .none first, rfl⟩
        · next g rest hg =>
          obtain ⟨ds, hds, rfl⟩ := isGroup_of_readGroup hg
          obtain ⟨hroom, used, hused, hrest⟩ := ih false rest
          refine ⟨Nat.succ_le_succ hroom, _, .group hds hused, ?_⟩
          simp only [hs, List.append_assoc, ← hrest]

/-! ### Zero groups -/

theorem leadingZeros_le (groups : List UInt16) : leadingZeros groups ≤ groups.length :=
  (List.takeWhile_prefix _).length_le

theorem take_leadingZeros {groups : List UInt16} {n : Nat} (h : n ≤ leadingZeros groups) :
    groups.take n = List.replicate n 0 := by
  have hprefix : groups.take (leadingZeros groups) = groups.takeWhile (· == 0) :=
    (List.prefix_iff_eq_take.mp (List.takeWhile_prefix _)).symm
  refine List.eq_replicate_iff.mpr ⟨?_, fun g hg => ?_⟩
  · rw [List.length_take]
    have := leadingZeros_le groups
    omega
  · have hmem : g ∈ groups.takeWhile (· == 0) :=
      hprefix ▸ (List.take_prefix_take_left h).subset hg
    simpa using List.all_eq_true.mp List.all_takeWhile g hmem

theorem longestZeroRun_le (groups : List UInt16) :
    (longestZeroRun groups).2 ≤ leadingZeros (groups.drop (longestZeroRun groups).1) := by
  unfold longestZeroRun
  generalize List.range groups.length = places
  -- what has been found so far is a run of zeros as well
  suffices ∀ best : Nat × Nat, best.2 ≤ leadingZeros (groups.drop best.1) →
      (places.foldl (fun best i => if best.2 < leadingZeros (groups.drop i) then
        (i, leadingZeros (groups.drop i)) else best) best).2 ≤ leadingZeros (groups.drop
          (places.foldl (fun best i => if best.2 < leadingZeros (groups.drop i) then
            (i, leadingZeros (groups.drop i)) else best) best).1) from
    this (0, 0) (Nat.zero_le _)
  induction places with
  | nil => exact fun best h => h
  | cons i places ih =>
    intro best h
    rw [List.foldl_cons]
    apply ih
    split
    · exact Nat.le_refl _
    · exact h

/-- Zeros in the place of the longest run of zeros make the groups again. -/
theorem spread_longestZeroRun (groups : List UInt16) :
    groups.take (longestZeroRun groups).1 ++ List.replicate (longestZeroRun groups).2 0 ++
      groups.drop ((longestZeroRun groups).1 + (longestZeroRun groups).2) = groups := by
  rw [← take_leadingZeros (longestZeroRun_le groups), ← List.drop_drop, List.append_assoc,
    List.take_append_drop, List.take_append_drop]

end DnsFanout.Net
