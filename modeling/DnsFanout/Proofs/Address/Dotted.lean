import DnsFanout.Net.Address
import DnsFanout.Proofs.Address.Digits

/-! Dotted addresses, of which there is one text each, and where a reader of them gives
up: at the first character behind the first number that is no dot. -/

namespace DnsFanout.Net

open Text

theorem readOctet_digits (n : UInt8) {rest : List Char} (hrest : Ends 10 rest) :
    readOctet (digits 10 n.toNat ++ rest) = some (n, rest) := by
  have hdigits : ∀ c ∈ digits 10 n.toNat, isDigit 10 c = true := fun _ hc =>
    isDigit_of_mem_digits (by decide) (by decide) hc
  have htake := takeWhile_append_ends hdigits hrest
  have hdrop := dropWhile_append_ends hdigits hrest
  have hvalue := ofDigits_digits (by decide : 1 < 10) (by decide) n.toNat
  have hlength : (digits 10 n.toNat).length ≤ 3 :=
    length_digits_le (by decide) (by decide) (Nat.lt_trans n.toNat_lt (by decide))
  have hzero : ¬((digits 10 n.toNat).head? = some '0' ∧ 1 < (digits 10 n.toNat).length) := by
    rintro ⟨hhead, hlong⟩
    rw [head?_digits (by decide) hhead] at hlong
    exact absurd hlong (by decide)
  have hmax : ¬255 < n.toNat := by
    have := n.toNat_lt
    omega
  simp only [readOctet, htake, hdrop, hvalue]
  rw [if_neg]
  · simp
  · rintro (hnil | hlong | hlarge | hhead)
    · exact digits_ne_nil _ hnil
    · omega
    · exact hmax hlarge
    · exact hzero hhead

theorem readOctet_eq_some {s rest : List Char} {n : UInt8} (h : readOctet s = some (n, rest)) :
    s = digits 10 n.toNat ++ rest := by
  simp only [readOctet, Option.ite_none_left_eq_some, not_or, Option.some.injEq,
    Prod.mk.injEq] at h
  obtain ⟨⟨hne, -, hmax, hzero⟩, rfl, rfl⟩ := h
  have hvalue : (ofDigits 10 (s.takeWhile (isDigit 10))).toUInt8.toNat =
      ofDigits 10 (s.takeWhile (isDigit 10)) := by
    simp only [Nat.toUInt8_eq, UInt8.toNat_ofNat']
    omega
  have hone (hhead : (s.takeWhile (isDigit 10)).head? = some '0') :
      (s.takeWhile (isDigit 10)).length = 1 := by
    have hpos := List.length_pos_iff.mpr hne
    have hle : ¬1 < (s.takeWhile (isDigit 10)).length := fun hlong => hzero ⟨hhead, hlong⟩
    omega
  rw [hvalue, digits_ofDigits hne isDigit_of_mem_takeWhile hone, List.takeWhile_append_dropWhile]

@[simp] theorem readChar_cons (c : Char) (rest : List Char) : readChar c (c :: rest) = some rest :=
  if_pos rfl

theorem readChar_eq_some {c : Char} {s rest : List Char} (h : readChar c s = some rest) :
    s = c :: rest := by
  unfold readChar at h
  split at h
  · cases h
  · split at h
    · next hc => rw [hc, Option.some.inj h]
    · cases h

theorem readIPv4_toChars (ip : IPv4) {rest : List Char} (hrest : Ends 10 rest) :
    readIPv4 (ip.toChars ++ rest) = some (ip, rest) := by
  have hdot : ∀ cs : List Char, Ends 10 ('.' :: cs) := fun cs => ends_cons.mpr (by decide)
  simp only [IPv4.toChars, List.append_assoc, List.cons_append, readIPv4]
  simp [readOctet_digits _ (hdot _), readOctet_digits _ hrest]

theorem readIPv4_eq_some {s rest : List Char} {ip : IPv4} (h : readIPv4 s = some (ip, rest)) :
    s = ip.toChars ++ rest := by
  simp only [readIPv4, bind, Option.bind_eq_some_iff, pure, Option.some.injEq, Prod.mk.injEq,
    Prod.exists] at h
  obtain ⟨a, s₁, ha, s₂, h₁, b, s₃, hb, s₄, h₂, c, s₅, hc, s₆, h₃, d, s₇, hd, rfl, rfl⟩ := h
  rw [readOctet_eq_some ha, readChar_eq_some h₁, readOctet_eq_some hb, readChar_eq_some h₂,
    readOctet_eq_some hc, readChar_eq_some h₃, readOctet_eq_some hd]
  simp [IPv4.toChars]

theorem readIPv4_eq_none {s : List Char} (h : (s.dropWhile (isDigit 10)).head? ≠ some '.') :
    readIPv4 s = none := by
  cases hread : readOctet s with
  | none => simp [readIPv4, hread]
  | some first =>
    obtain ⟨a, rest⟩ := first
    have hrest : rest = s.dropWhile (isDigit 10) := by
      unfold readOctet at hread
      dsimp only at hread
      split at hread
      · cases hread
      · exact (congrArg Prod.snd (Option.some.inj hread)).symm
    have hnone : readChar '.' rest = none := by
      cases hchar : readChar '.' rest with
      | none => rfl
      | some more =>
        rw [readChar_eq_some hchar] at hrest
        exact absurd (by rw [← hrest, List.head?_cons]) h
    simp [readIPv4, hread, hnone]

/-- Characters without a dot do not begin a dotted address, before the end of a text or a
character that is no digit and no dot. -/
theorem readIPv4_append_eq_none {cs rest : List Char} (hcs : '.' ∉ cs) (hend : Ends 10 rest)
    (hdot : rest.head? ≠ some '.') : readIPv4 (cs ++ rest) = none := by
  apply readIPv4_eq_none
  induction cs with
  | nil =>
    cases rest with
    | nil => simp
    | cons c rest => simpa [ends_cons.mp hend] using hdot
  | cons c cs ih =>
    have hc : c ≠ '.' := fun heq => hcs (heq ▸ List.mem_cons_self)
    rw [List.cons_append, List.dropWhile_cons]
    split
    · exact ih fun hmem => hcs (List.mem_cons_of_mem c hmem)
    · simpa using hc

end DnsFanout.Net
