import DnsFanout.Proofs.Address.Groups

/-! The texts that are read as addresses, and no others. A dotted address has one text; one of
version 6 has eight groups, or fewer and a double colon. -/

namespace DnsFanout.Net

open Text

/-- All groups, or some of them in front of a double colon and some behind it, with zeros left
out between. Only the last two groups may be dotted, and not in front of a double colon. -/
inductive IPv6.IsText (ip : IPv6) : List Char → Prop
  | full {dotted : Bool} {s : List Char} (h : AreGroups true dotted ip.groups s) : IsText ip s
  | short {head tail : List UInt16} {dotted : Bool} {s t : List Char}
    (hhead : AreGroups true false head s) (htail : AreGroups true dotted tail t)
    (hroom : head.length + tail.length < 8)
    (h : head ++ List.replicate (8 - head.length - tail.length) 0 ++ tail = ip.groups) :
    IsText ip (s ++ ':' :: ':' :: t)

/-- How an address may be written. -/
def IPAddress.IsText : IPAddress → List Char → Prop
  | .v4 ip, s => s = ip.toChars
  | .v6 ip, s => ip.IsText s

theorem IPv6.spread?_eq_some {head tail : List UInt16} {ip : IPv6} :
    IPv6.spread? head tail = some ip ↔
      head ++ List.replicate (8 - head.length - tail.length) 0 ++ tail = ip.groups := by
  obtain ⟨groups, hlength⟩ := ip
  unfold spread?
  dsimp only
  split
  · simp
  · next hne =>
    refine iff_of_false nofun ?_
    rintro rfl
    exact hne hlength

theorem over_colons (more : List Char) : Over (':' :: ':' :: more) := .inr ⟨more, rfl⟩

theorem over_nil : Over [] := .inl rfl

theorem readIPv6_of_isText {ip : IPv6} {s : List Char} (h : ip.IsText s) :
    readIPv6 s = some (ip, []) := by
  cases h with
  | full h =>
    have hread := readGroups_of_areGroups h over_nil (Nat.le_of_eq ip.length_eq)
    have hspread : IPv6.spread? ip.groups [] = some ip :=
      IPv6.spread?_eq_some.mpr (by simp [ip.length_eq])
    rw [List.append_nil] at hread
    simp [readIPv6, hread, ip.length_eq, hspread]
  | @short head tail dotted s t hhead htail hroom h =>
    have hfirst := readGroups_of_areGroups hhead (over_colons t) (by omega : head.length ≤ 8)
    have hlast := readGroups_of_areGroups htail over_nil
      (by omega : tail.length ≤ 7 - head.length)
    have hshort : ¬head.length = 8 := by omega
    rw [List.append_nil] at hlast
    simp [readIPv6, hfirst, hshort, hlast, IPv6.spread?_eq_some.mpr h]

theorem isText_of_readIPv6 {ip : IPv6} {s rest : List Char} (h : readIPv6 s = some (ip, rest)) :
    ∃ used, ip.IsText used ∧ s = used ++ rest := by
  obtain ⟨hroom, used, hhead, hs⟩ := areGroups_readGroups 8 true s
  unfold readIPv6 at h
  generalize readGroups 8 true s = head at h hroom hhead hs
  obtain ⟨head, dotted, after⟩ := head
  dsimp only at h hroom hhead hs
  simp only [bind, pure] at h
  split at h
  · next hfull =>
    simp only [Option.bind_eq_some_iff, IPv6.spread?_eq_some, Option.some.injEq,
      Prod.mk.injEq] at h
    obtain ⟨ip, hspread, rfl, rfl⟩ := h
    have hgroups : head = ip.groups := by simpa [hfull] using hspread
    exact ⟨used, .full (hgroups ▸ hhead), hs⟩
  · next hshort =>
    cases dotted with
    | true => cases h
    | false =>
      simp only [Bool.false_eq_true, if_false, Option.bind_eq_some_iff, IPv6.spread?_eq_some,
        Option.some.injEq, Prod.mk.injEq] at h
      obtain ⟨s₁, h₁, s₂, h₂, _, hspread, rfl, rfl⟩ := h
      obtain ⟨hlast, more, htail, hmore⟩ := areGroups_readGroups (8 - (head.length + 1)) true s₂
      refine ⟨_, .short hhead htail (by omega) hspread, ?_⟩
      rw [hs, readChar_eq_some h₁, readChar_eq_some h₂]
      simp only [List.append_assoc, List.cons_append, ← hmore]

/-- No text of version 6 begins with a dotted address. -/
theorem IPv6.IsText.readIPv4_eq_none {ip : IPv6} {s : List Char} (h : ip.IsText s) :
    readIPv4 s = none := by
  cases h with
  | full h =>
    have hlong : 2 < ip.groups.length := Nat.lt_of_lt_of_eq (by decide) ip.length_eq.symm
    simpa using h.readIPv4_eq_none (fun _ => hlong) over_nil.closed
  | short hhead _ _ _ => exact hhead.readIPv4_eq_none nofun (over_colons _).closed

theorem IPAddress.parse?_eq_some {s : List Char} {ip : IPAddress} :
    IPAddress.parse? s = some ip ↔ ip.IsText s := by
  constructor
  · intro h
    unfold parse? at h
    split at h
    · next ip' rest hread =>
      obtain ⟨rfl, h⟩ := Option.ite_none_right_eq_some.mp h
      cases h
      exact (readIPv4_eq_some hread).trans (List.append_nil _)
    · split at h
      · next ip' rest hread =>
        obtain ⟨rfl, h⟩ := Option.ite_none_right_eq_some.mp h
        cases h
        obtain ⟨used, htext, rfl⟩ := isText_of_readIPv6 hread
        exact (List.append_nil used).symm ▸ htext
      · cases h
  · intro h
    cases ip with
    | v4 ip =>
      have hread := readIPv4_toChars ip ends_nil
      rw [List.append_nil] at hread
      obtain rfl : s = ip.toChars := h
      simp [parse?, hread]
    | v6 ip =>
      change ip.IsText s at h
      simp [parse?, h.readIPv4_eq_none, readIPv6_of_isText h]

theorem IPAddress.IsText.unique {s : List Char} {a b : IPAddress} (ha : a.IsText s)
    (hb : b.IsText s) : a = b :=
  Option.some.inj ((parse?_eq_some.mpr ha).symm.trans (parse?_eq_some.mpr hb))

end DnsFanout.Net
