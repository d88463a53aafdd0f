/-! Blank and control characters, trimming, and what occurs in a text. Text is
handled as a list of characters. -/

namespace DnsFanout.Text

/-- The characters with the Unicode property White_Space. -/
def isBlank (c : Char) : Bool :=
  let n := c.toNat
  (9 ≤ n && n ≤ 13) || n = 32 || n = 0x85 || n = 0xA0 || n = 0x1680 ||
    (0x2000 ≤ n && n ≤ 0x200A) || n = 0x2028 || n = 0x2029 || n = 0x202F ||
    n = 0x205F || n = 0x3000

/-- The characters of the Unicode category Cc. -/
def isControl (c : Char) : Bool :=
  c.toNat < 32 || (0x7F ≤ c.toNat && c.toNat < 0xA0)

def trimStart (s : List Char) : List Char := s.dropWhile isBlank

def trimEnd (s : List Char) : List Char := (s.reverse.dropWhile isBlank).reverse

def trim (s : List Char) : List Char := trimEnd (trimStart s)

/-- The octets that the text takes in UTF-8. -/
def byteCount (s : List Char) : Nat := s.foldr (fun c n => c.utf8Size + n) 0

/-- Whether `part` stands somewhere in the text. -/
def occurs (part : List Char) : List Char → Bool
  | [] => part.isEmpty
  | c :: rest => part.isPrefixOf (c :: rest) || occurs part rest

theorem mem_of_occurs {part s : List Char} (h : occurs part s = true) {c : Char} (hc : c ∈ part) :
    c ∈ s := by
  induction s with
  | nil =>
    have hnil : part = [] := by simpa [occurs] using h
    rw [hnil] at hc
    cases hc
  | cons x s ih =>
    simp only [occurs, Bool.or_eq_true, List.isPrefixOf_iff_prefix] at h
    rcases h with h | h
    · exact h.subset hc
    · exact List.mem_cons_of_mem x (ih h)

/-- What follows `lead` in `s`, if `s` begins with it. -/
def after? (lead s : List Char) : Option (List Char) :=
  if lead.isPrefixOf s then some (s.drop lead.length) else none

@[simp] theorem after?_append (lead s : List Char) : after? lead (lead ++ s) = some s := by
  simp [after?]

theorem eq_append_of_after? {lead s rest : List Char} (h : after? lead s = some rest) :
    s = lead ++ rest := by
  simp only [after?, Option.ite_none_right_eq_some, Option.some.injEq,
    List.isPrefixOf_iff_prefix] at h
  obtain ⟨⟨t, rfl⟩, rfl⟩ := h
  simp

end DnsFanout.Text
