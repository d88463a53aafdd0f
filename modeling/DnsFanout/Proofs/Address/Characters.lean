import DnsFanout.Proofs.Address.RoundTrip
import DnsFanout.Text.Blank

/-! The characters that addresses are written with: digits, dots, colons and brackets. -/

namespace DnsFanout.Net

open Text

theorem isDigit_of_le {base base' : Nat} (h : base ≤ base') {c : Char}
    (hc : isDigit base c = true) : isDigit base' c = true := by
  obtain ⟨d, hd⟩ := Option.isSome_iff_exists.mp hc
  simp only [digit?, Option.filter_eq_some_iff] at hd
  refine Option.isSome_iff_exists.mpr ⟨d, ?_⟩
  simp only [digit?, Option.filter_eq_some_iff]
  exact ⟨hd.1, by simpa using Nat.lt_of_lt_of_le (by simpa using hd.2) h⟩

/-- The characters that addresses are written with. -/
def isAddressChar (c : Char) : Bool := isDigit 16 c || c = ':' || c = '.'

theorem isAddressChar_of_isDigit {c : Char} (h : isDigit 16 c = true) : isAddressChar c = true := by
  simp [isAddressChar, h]

theorem IPv4.mem_toChars {ip : IPv4} {c : Char} (hc : c ∈ ip.toChars) :
    isDigit 10 c = true ∨ c = '.' := by
  have number {n : Nat} (h : c ∈ digits 10 n) : isDigit 10 c = true ∨ c = '.' :=
    .inl (isDigit_of_mem_digits (by decide) (by decide) h)
  simp only [IPv4.toChars, List.mem_append, List.mem_cons] at hc
  rcases hc with ((h | rfl | h) | rfl | h) | rfl | h
  all_goals first | exact number h | exact .inr rfl

theorem IPv4.isAddressChar_of_mem_toChars {ip : IPv4} {c : Char} (hc : c ∈ ip.toChars) :
    isAddressChar c = true := by
  rcases mem_toChars hc with h | rfl
  · exact isAddressChar_of_isDigit (isDigit_of_le (by decide) h)
  · rfl

theorem AreGroups.isAddressChar {first dotted : Bool} {groups : List UInt16} {s : List Char}
    (h : AreGroups first dotted groups s) {c : Char} (hc : c ∈ s) : isAddressChar c = true := by
  have colon {first : Bool} (h : c ∈ lead first) : Net.isAddressChar c = true := by
    cases first with
    | true => cases h
    | false =>
      obtain rfl := List.mem_singleton.mp h
      rfl
  induction h with
  | none first => cases hc
  | dotted first ip => exact (List.mem_append.mp hc).elim colon IPv4.isAddressChar_of_mem_toChars
  | group hg hmore ih =>
    rcases List.mem_append.mp hc with h | h
    · exact colon h
    · exact (List.mem_append.mp h).elim (fun h => isAddressChar_of_isDigit (hg.digits c h)) ih

theorem IPAddress.IsText.isAddressChar {ip : IPAddress} {s : List Char} (h : ip.IsText s) {c : Char}
    (hc : c ∈ s) : isAddressChar c = true := by
  cases ip with
  | v4 ip =>
    obtain rfl : s = ip.toChars := h
    exact IPv4.isAddressChar_of_mem_toChars hc
  | v6 ip =>
    cases h with
    | full h => exact h.isAddressChar hc
    | short hhead htail hroom hspread =>
      simp only [List.mem_append, List.mem_cons] at hc
      rcases hc with h | rfl | rfl | h
      · exact hhead.isAddressChar h
      · rfl
      · rfl
      · exact htail.isAddressChar h

theorem isAddressChar_of_mem_toChars {ip : IPAddress} {c : Char} (hc : c ∈ ip.toChars) :
    isAddressChar c = true := ip.isText_toChars.isAddressChar hc

/-! ### Colons -/

theorem IPv4.colon_notMem (ip : IPv4) : ':' ∉ ip.toChars := fun hmem => by
  rcases mem_toChars hmem with h | h
  · exact absurd h (by decide)
  · exact absurd h (by decide)

theorem AreGroups.length_le {first dotted : Bool} {groups : List UInt16} {s : List Char}
    (h : AreGroups first dotted groups s) :
    groups.length ≤ s.count ':' + first.toNat + dotted.toNat := by
  have colon (first : Bool) : 1 ≤ (lead first).count ':' + first.toNat := by
    cases first <;> decide
  induction h with
  | none first => exact Nat.zero_le _
  | dotted first ip =>
    have := colon first
    rw [List.count_append]
    simp only [IPv4.toGroups, List.length_cons, List.length_nil, Bool.toNat_true]
    omega
  | @group first _ _ _ _ _ hg hmore ih =>
    have := colon first
    simp only [List.count_append, List.length_cons, Bool.toNat_false] at ih ⊢
    omega

/-- A text of version 6 has two colons at least. -/
theorem IPv6.IsText.one_lt_count {ip : IPv6} {s : List Char} (h : ip.IsText s) :
    1 < s.count ':' := by
  cases h with
  | @full dotted _ h =>
    have hlength := h.length_le
    have hdotted := Bool.toNat_le dotted
    rw [ip.length_eq, Bool.toNat_true] at hlength
    omega
  | short hhead htail hroom hspread =>
    simp only [List.count_append, List.count_cons_self]
    omega

/-! ### Blanks and brackets -/

theorem toNat_of_isDigit {c : Char} (h : isDigit 16 c = true) :
    48 ≤ c.toNat ∧ c.toNat ≤ 122 := by
  have bounds {a b : Char} (hc : a ≤ c ∧ c ≤ b) (ha : 48 ≤ a.toNat) (hb : b.toNat ≤ 122) :
      48 ≤ c.toNat ∧ c.toNat ≤ 122 :=
    ⟨Nat.le_trans ha (UInt32.le_iff_toNat_le.mp hc.1),
      Nat.le_trans (UInt32.le_iff_toNat_le.mp hc.2) hb⟩
  by_cases hdigit : '0' ≤ c ∧ c ≤ '9'
  · exact bounds hdigit (by decide) (by decide)
  · by_cases hlower : 'a' ≤ c ∧ c ≤ 'z'
    · exact bounds hlower (by decide) (by decide)
    · by_cases hupper : 'A' ≤ c ∧ c ≤ 'Z'
      · exact bounds hupper (by decide) (by decide)
      · simp [isDigit, digit?, hdigit, hlower, hupper] at h

theorem not_isBlank_of_isAddressChar {c : Char} (h : isAddressChar c = true) :
    isBlank c = false := by
  simp only [isAddressChar, Bool.or_eq_true, decide_eq_true_eq] at h
  rcases h with (h | rfl) | rfl
  · obtain ⟨hmin, hmax⟩ := toNat_of_isDigit h
    simp only [isBlank, Bool.or_eq_false_iff, Bool.and_eq_false_iff, decide_eq_false_iff_not]
    omega
  · rfl
  · rfl

theorem SocketAddress.mem_toChars {a : SocketAddress} {c : Char} (hc : c ∈ a.toChars) :
    isAddressChar c = true ∨ c = '[' ∨ c = ']' := by
  have number (h : c ∈ digits 10 a.service.toNat) : isAddressChar c = true :=
    isAddressChar_of_isDigit (isDigit_of_le (by decide)
      (isDigit_of_mem_digits (by decide) (by decide) h))
  have host (h : c ∈ a.host.toChars) : isAddressChar c = true := isAddressChar_of_mem_toChars h
  obtain ⟨ip, service⟩ := a
  cases ip with
  | v4 ip =>
    simp only [toChars, List.mem_append, List.mem_cons] at hc
    rcases hc with h | rfl | h
    · exact .inl (host h)
    · exact .inl rfl
    · exact .inl (number h)
  | v6 ip =>
    simp only [toChars, List.mem_append, List.mem_cons, List.not_mem_nil, or_false] at hc
    rcases hc with ((rfl | h) | rfl) | rfl | h
    · exact .inr (.inl rfl)
    · exact .inl (host h)
    · exact .inr (.inr rfl)
    · exact .inl rfl
    · exact .inl (number h)

theorem SocketAddress.not_isBlank_of_mem_toChars {a : SocketAddress} {c : Char}
    (hc : c ∈ a.toChars) : isBlank c = false := by
  rcases mem_toChars hc with h | rfl | rfl
  · exact not_isBlank_of_isAddressChar h
  · rfl
  · rfl

theorem SocketAddress.not_mem_toChars (a : SocketAddress) {c : Char}
    (h : isAddressChar c = false ∧ c ≠ '[' ∧ c ≠ ']') : c ∉ a.toChars := by
  intro hc
  rcases mem_toChars hc with hmem | hmem | hmem
  · exact absurd hmem (by simp [h.1])
  · exact h.2.1 hmem
  · exact h.2.2 hmem

end DnsFanout.Net
