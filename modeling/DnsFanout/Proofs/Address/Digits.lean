import DnsFanout.Text.Number
import Mathlib.Algebra.Group.Nat.Defs
import Mathlib.Data.List.Induction

/-! Numbers that are written in digits and read again, alone or in front of a text
that begins with no digit; and the texts that are read as numbers. -/

namespace DnsFanout.Text

variable {base : Nat}

theorem digit?_digitChar (hbase : base ≤ 16) {d : Nat} (hd : d < base) :
    digit? base (Nat.digitChar d) = some d := by
  have hvalue : ∀ d < 16, digit? 16 (Nat.digitChar d) = some d := by decide
  have hwide := hvalue d (by omega)
  simp only [digit?, Option.filter_eq_some_iff] at hwide ⊢
  exact ⟨hwide.1, by simpa using hd⟩

theorem digits_eq (hbase : 1 < base) (n : Nat) : digits base n =
    (if n < base then [] else digits base (n / base)) ++ [Nat.digitChar (n % base)] := by
  unfold digits
  rw [Nat.toDigits_eq_if hbase]
  split
  · next hlt => rw [Nat.mod_eq_of_lt hlt, List.nil_append]
  · rfl

theorem digits_ne_nil (n : Nat) : digits base n ≠ [] := Nat.toDigits_ne_nil

theorem length_digits_le (hbase : 1 < base) {n k : Nat} (hk : 0 < k) (h : n < base ^ k) :
    (digits base n).length ≤ k :=
  (Nat.length_toDigits_le_iff hbase hk).mpr h

theorem isDigit_of_mem_digits (hbase : 1 < base) (hmax : base ≤ 16) {n : Nat} {c : Char}
    (hc : c ∈ digits base n) : isDigit base c = true := by
  induction n using Nat.strongRecOn with
  | ind n ih =>
    rw [digits_eq hbase] at hc
    rcases List.mem_append.mp hc with hc | hc
    · split at hc
      · cases hc
      · exact ih (n / base) (Nat.div_lt_self (by omega) hbase) hc
    · rw [List.mem_singleton.mp hc, isDigit,
        digit?_digitChar hmax (Nat.mod_lt n (by omega)), Option.isSome_some]

theorem ofDigits_concat (cs : List Char) (c : Char) :
    ofDigits base (cs ++ [c]) = ofDigits base cs * base + (digit? base c).getD 0 := by
  simp [ofDigits]

theorem ofDigits_digits (hbase : 1 < base) (hmax : base ≤ 16) (n : Nat) :
    ofDigits base (digits base n) = n := by
  induction n using Nat.strongRecOn with
  | ind n ih =>
    have hlast := digit?_digitChar hmax (Nat.mod_lt n (by omega : 0 < base))
    rw [digits_eq hbase, ofDigits_concat, hlast, Option.getD_some]
    split
    · next hlt => simp [ofDigits, Nat.mod_eq_of_lt hlt]
    · rw [ih (n / base) (Nat.div_lt_self (by omega) hbase)]
      exact Nat.div_add_mod' n base

theorem head?_digits (hbase : 1 < base) {n : Nat} (h : (digits base n).head? = some '0') :
    n = 0 := by
  induction n using Nat.strongRecOn with
  | ind n ih =>
    rw [digits_eq hbase] at h
    split at h
    · next hlt =>
      rw [Nat.mod_eq_of_lt hlt, List.nil_append, List.head?_singleton, Option.some.injEq] at h
      exact Nat.digitChar_eq_zero.mp h
    · next hle =>
      have hne : digits base (n / base) ≠ [] := digits_ne_nil (n / base)
      obtain ⟨c, cs, hcons⟩ := List.exists_cons_of_ne_nil hne
      have hhead : (digits base (n / base)).head? = some '0' := by simpa [hcons] using h
      have hzero := ih (n / base) (Nat.div_lt_self (by omega) hbase) hhead
      have hlt := (Nat.div_eq_zero_iff_lt (by omega)).mp hzero
      exact absurd hlt hle

/-- The text goes on with something that is no digit, or ends. -/
def Ends (base : Nat) (rest : List Char) : Prop := ∀ c ∈ rest.head?, isDigit base c = false

@[simp] theorem ends_nil : Ends base [] := nofun

@[simp] theorem ends_cons {c : Char} {rest : List Char} :
    Ends base (c :: rest) ↔ isDigit base c = false := by simp [Ends]

theorem takeWhile_append_ends {ds rest : List Char} (hds : ∀ c ∈ ds, isDigit base c = true)
    (hrest : Ends base rest) : (ds ++ rest).takeWhile (isDigit base) = ds := by
  rw [List.takeWhile_append_of_pos hds]
  cases rest with
  | nil => simp
  | cons c rest => simp [ends_cons.mp hrest]

theorem dropWhile_append_ends {ds rest : List Char} (hds : ∀ c ∈ ds, isDigit base c = true)
    (hrest : Ends base rest) : (ds ++ rest).dropWhile (isDigit base) = rest := by
  rw [List.dropWhile_append_of_pos hds]
  cases rest with
  | nil => rfl
  | cons c rest => simp [ends_cons.mp hrest]

theorem isDigit_of_mem_takeWhile {s : List Char} :
    ∀ c ∈ s.takeWhile (isDigit base), isDigit base c = true :=
  List.all_eq_true.mp List.all_takeWhile

theorem readNat?_digits (hbase : 1 < base) (hmax : base ≤ 16) (n : Nat) :
    readNat? base (digits base n) = some n := by
  have hall : (digits base n).all (isDigit base) = true :=
    List.all_eq_true.mpr fun c hc => isDigit_of_mem_digits hbase hmax hc
  rw [readNat?, if_pos ⟨digits_ne_nil n, hall⟩, ofDigits_digits hbase hmax]

/-! ### The texts of numbers -/

theorem digit?_lt {c : Char} {d : Nat} (h : digit? base c = some d) : d < base := by
  simp only [digit?, Option.filter_eq_some_iff] at h
  simpa using h.2

theorem ofDigits_lt {cs : List Char} (h : ∀ c ∈ cs, isDigit base c = true) :
    ofDigits base cs < base ^ cs.length := by
  induction cs using List.reverseRecOn with
  | nil => simp [ofDigits]
  | append_singleton cs c ih =>
    obtain ⟨d, hd⟩ := Option.isSome_iff_exists.mp (h c (by simp))
    have hfront := ih fun c hc => h c (List.mem_append_left _ hc)
    rw [ofDigits_concat, hd, Option.getD_some, List.length_append, List.length_singleton,
      Nat.pow_succ]
    calc ofDigits base cs * base + d
      _ < ofDigits base cs * base + base := Nat.add_lt_add_left (digit?_lt hd) _
      _ = (ofDigits base cs + 1) * base := (Nat.succ_mul ..).symm
      _ ≤ base ^ cs.length * base := Nat.mul_le_mul_right _ hfront

theorem digitChar_of_digit? {c : Char} {d : Nat} (h : digit? 10 c = some d) :
    Nat.digitChar d = c := by
  have hlt := digit?_lt h
  have hchars : ∀ d < 10, (Nat.digitChar d).toNat = 48 + d := by decide
  apply Char.toNat_inj.mp
  rw [hchars d hlt]
  simp only [digit?, Option.filter_eq_some_iff] at h
  by_cases hdigit : '0' ≤ c ∧ c ≤ '9'
  · have hmin : 48 ≤ c.toNat := UInt32.le_iff_toNat_le.mp hdigit.1
    rw [if_pos hdigit] at h
    have hd : c.toNat - 48 = d := Option.some.inj h.1
    omega
  · -- a letter stands for ten or more
    rw [if_neg hdigit] at h
    split at h
    · have hd : c.toNat - 97 + 10 = d := Option.some.inj h.1
      omega
    · split at h
      · have hd : c.toNat - 65 + 10 = d := Option.some.inj h.1
        omega
      · cases h.1

/-- Decimal digits without a zero in front are those of their number. -/
theorem digits_ofDigits {cs : List Char} (hne : cs ≠ []) (hdigits : ∀ c ∈ cs, isDigit 10 c = true)
    (hzero : cs.head? = some '0' → cs.length = 1) : digits 10 (ofDigits 10 cs) = cs := by
  induction cs using List.reverseRecOn with
  | nil => exact absurd rfl hne
  | append_singleton cs c ih =>
    obtain ⟨d, hd⟩ := Option.isSome_iff_exists.mp (hdigits c (by simp))
    have hlt := digit?_lt hd
    have hmod : (ofDigits 10 cs * 10 + d) % 10 = d := by omega
    have hdiv : (ofDigits 10 cs * 10 + d) / 10 = ofDigits 10 cs := by omega
    rw [ofDigits_concat, hd, Option.getD_some, digits_eq (by decide), hmod, hdiv,
      digitChar_of_digit? hd]
    cases cs with
    | nil => simp [ofDigits, hlt]
    | cons x cs =>
      have hx : x ≠ '0' := by
        rintro rfl
        simp at hzero
      have hfront := ih (List.cons_ne_nil x cs)
        (fun c hc => hdigits c (List.mem_append_left _ hc)) fun h => absurd (Option.some.inj h) hx
      have hpos : ofDigits 10 (x :: cs) ≠ 0 := by
        intro h
        rw [h] at hfront
        exact hx (List.cons.inj hfront).1.symm
      rw [if_neg (by omega), hfront]

/-- A decimal number of sixteen bits as it may be written: leading zeros and one plus sign are
allowed. -/
def IsNumber (n : UInt16) (s : List Char) : Prop :=
  ∃ ds, (s = ds ∨ s = '+' :: ds) ∧ ds ≠ [] ∧ (∀ c ∈ ds, isDigit 10 c = true) ∧
    ofDigits 10 ds = n.toNat

theorem IsNumber.mem {n : UInt16} {s : List Char} (h : IsNumber n s) {c : Char} (hc : c ∈ s) :
    isDigit 10 c = true ∨ c = '+' := by
  obtain ⟨ds, rfl | rfl, -, hdigits, -⟩ := h
  · exact .inl (hdigits c hc)
  · exact (List.mem_cons.mp hc).symm.imp_left (hdigits c)

theorem readNat?_eq_some {s : List Char} {n : Nat} : readNat? base s = some n ↔
    s ≠ [] ∧ (∀ c ∈ s, isDigit base c = true) ∧ ofDigits base s = n := by
  simp [readNat?, and_assoc]

theorem readWord16?_eq_some {s : List Char} {n : UInt16} :
    readWord16? s = some n ↔ IsNumber n s := by
  have hword (m : Nat) : (if m < 65536 then some m.toUInt16 else none) = some n ↔ m = n.toNat := by
    have hn := n.toNat_lt
    rw [Option.ite_none_right_eq_some, Option.some.injEq, ← UInt16.toNat_inj, Nat.toUInt16_eq,
      UInt16.toNat_ofNat']
    omega
  have hread (ds : List Char) :
      ((readNat? 10 ds).bind fun m => if m < 65536 then some m.toUInt16 else none) = some n ↔
        ds ≠ [] ∧ (∀ c ∈ ds, isDigit 10 c = true) ∧ ofDigits 10 ds = n.toNat := by
    simp [Option.bind_eq_some_iff, readNat?_eq_some, hword, and_assoc]
  unfold readWord16?
  split
  · next rest =>
    refine (hread rest).trans ⟨fun h => ⟨rest, .inr rfl, h⟩, ?_⟩
    rintro ⟨ds, rfl | hds, hne, hdigits, hvalue⟩
    · exact absurd (hdigits '+' List.mem_cons_self) (by decide)
    · obtain rfl := (List.cons.inj hds).2
      exact ⟨hne, hdigits, hvalue⟩
  · next hplus =>
    refine (hread s).trans ⟨fun h => ⟨s, .inl rfl, h⟩, ?_⟩
    rintro ⟨ds, rfl | rfl, h⟩
    · exact h
    · exact absurd rfl (hplus ds)

theorem readWord16?_digits (n : UInt16) : readWord16? (digits 10 n.toNat) = some n :=
  readWord16?_eq_some.mpr ⟨_, .inl rfl, digits_ne_nil _,
    fun _ hc => isDigit_of_mem_digits (by decide) (by decide) hc,
    ofDigits_digits (by decide) (by decide) n.toNat⟩

end DnsFanout.Text
