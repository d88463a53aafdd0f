import DnsFanout.Proofs.Address.Texts

/-! Every address is read back from its text, of either family. -/

namespace DnsFanout.Net

open Text

theorem IPv4.toGroups_ofGroups (high low : UInt16) :
    (IPv4.ofGroups high low).toGroups = [high, low] := by
  have halves (g : UInt16) : (g / 256).toUInt8.toUInt16 * 256 + g.toUInt8.toUInt16 = g := by
    apply UInt16.toNat_inj.mp
    have hg := g.toNat_lt
    simp only [UInt16.toNat_add, UInt16.toNat_mul, UInt8.toNat_toUInt16, UInt16.toNat_toUInt8,
      UInt16.toNat_div, UInt16.reduceToNat]
    omega
  simp only [IPv4.ofGroups, IPv4.toGroups, halves]

theorem areGroups_ledGroups (groups : List UInt16) :
    AreGroups false false groups (groups.flatMap fun g => ':' :: digits 16 g.toNat) := by
  induction groups with
  | nil => exact .none false
  | cons g groups ih => exact .group (isGroup_digits g) ih

theorem joinGroups_cons (g : UInt16) (groups : List UInt16) : joinGroups (g :: groups) =
    digits 16 g.toNat ++ groups.flatMap fun g => ':' :: digits 16 g.toNat := by
  induction groups generalizing g with
  | nil => simp [joinGroups]
  | cons g' groups ih =>
    calc joinGroups (g :: g' :: groups)
      _ = digits 16 g.toNat ++ [':'] ++ joinGroups (g' :: groups) := List.intercalate_cons_cons
      _ = _ := by simp [ih g']

theorem areGroups_joinGroups (groups : List UInt16) :
    AreGroups true false groups (joinGroups groups) := by
  cases groups with
  | nil => exact .none true
  | cons g groups =>
    rw [joinGroups_cons]
    exact .group (isGroup_digits g) (areGroups_ledGroups groups)

theorem areGroups_mapped (high low : UInt16) :
    AreGroups true true [0xFFFF, high, low] ("ffff:".toList ++ (IPv4.ofGroups high low).toChars) := by
  have hdotted : AreGroups false true [high, low] (':' :: (IPv4.ofGroups high low).toChars) :=
    IPv4.toGroups_ofGroups high low ▸ .dotted false (IPv4.ofGroups high low)
  exact .group (isGroup_digits 0xFFFF) hdotted

/-- The three ways in which an IPv6 address is written: with the last two groups dotted, in
full, or with two or more zeros left out. -/
theorem IPv6.toChars_eq (ip : IPv6) :
    (∃ high low, ip.groups = [0, 0, 0, 0, 0, 0xFFFF, high, low] ∧
      ip.toChars = ':' :: ':' :: ("ffff:".toList ++ (IPv4.ofGroups high low).toChars)) ∨
    ip.toChars = joinGroups ip.groups ∨
    ∃ head tail, ip.toChars = joinGroups head ++ ':' :: ':' :: joinGroups tail ∧
      head.length + tail.length ≤ 6 ∧
      head ++ List.replicate (8 - head.length - tail.length) 0 ++ tail = ip.groups := by
  unfold IPv6.toChars
  split
  · next high low hgroups => exact .inl ⟨high, low, hgroups, rfl⟩
  · have hspread := spread_longestZeroRun ip.groups
    have hlength := congrArg List.length hspread
    have height := ip.length_eq
    generalize longestZeroRun ip.groups = run at hspread hlength ⊢
    obtain ⟨start, length⟩ := run
    dsimp only at hspread hlength ⊢
    split
    · exact .inr (.inl rfl)
    · simp only [List.length_append, List.length_take, List.length_replicate,
        List.length_drop, height] at hlength
      have hhead : (ip.groups.take start).length = min start 8 := by
        rw [List.length_take, height]
      have htail : (ip.groups.drop (start + length)).length = 8 - (start + length) := by
        rw [List.length_drop, height]
      have hzeros : 8 - min start 8 - (8 - (start + length)) = length := by omega
      exact .inr (.inr ⟨_, _, rfl, by omega, by rw [hhead, htail, hzeros, hspread]⟩)

theorem IPv6.isText_toChars (ip : IPv6) : ip.IsText ip.toChars := by
  rcases ip.toChars_eq with
    ⟨high, low, hgroups, htext⟩ | htext | ⟨head, tail, htext, hroom, hspread⟩
  · rw [htext]
    exact .short (.none true) (areGroups_mapped high low) (by decide : 0 + 3 < 8) hgroups.symm
  · rw [htext]
    exact .full (areGroups_joinGroups ip.groups)
  · rw [htext]
    exact .short (areGroups_joinGroups head) (areGroups_joinGroups tail) (by omega) hspread

theorem IPAddress.isText_toChars (ip : IPAddress) : ip.IsText ip.toChars := by
  cases ip with
  | v4 ip => rfl
  | v6 ip => exact ip.isText_toChars

@[simp] theorem IPAddress.parse?_toChars (ip : IPAddress) :
    IPAddress.parse? ip.toChars = some ip :=
  IPAddress.parse?_eq_some.mpr ip.isText_toChars

end DnsFanout.Net
