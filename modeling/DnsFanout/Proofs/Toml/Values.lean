import DnsFanout.Proofs.Address.Digits
import DnsFanout.Proofs.Toml.Quoted
import DnsFanout.Text.Blank
import DnsFanout.Toml.Document

/-! Values are read back as they were written: texts, lists of texts, numbers and truth
values. -/

namespace DnsFanout.Toml

open Text

/-! ### Texts and lists of texts -/

theorem writeText_eq_cons (text : String) :
    ∃ mark more, writeText text = mark :: more ∧ (mark = '"' ∨ mark = '\'') := by
  unfold writeText
  cases Style.select text.toList with
  | basic => exact ⟨_, _, rfl, .inl rfl⟩
  | literal => exact ⟨_, _, rfl, .inr rfl⟩
  | longBasic => exact ⟨_, _, rfl, .inl rfl⟩
  | longLiteral => exact ⟨_, _, rfl, .inr rfl⟩

theorem readValue_writeText (depth : Nat) (text : String) {rest : List Char}
    (hrest : Closes rest) :
    readValue depth (writeText text ++ rest) = some (.string text, rest) := by
  have hread := readQuoted_writeText hrest text
  obtain ⟨mark, more, hwritten, hmark⟩ := writeText_eq_cons text
  rw [hwritten, List.cons_append] at hread ⊢
  have hscalar : readScalar (mark :: (more ++ rest)) = some (.string text, rest) := by
    rcases hmark with rfl | rfl
    · rw [readScalar, hread, Option.map_some]
    · rw [readScalar, hread, Option.map_some]
  cases depth with
  | zero => exact hscalar
  | succ depth => rcases hmark with rfl | rfl <;> exact hscalar

theorem skipSpace_writeText (text : String) (rest : List Char) :
    skipSpace (writeText text ++ rest) = writeText text ++ rest := by
  obtain ⟨mark, more, hwritten, hmark⟩ := writeText_eq_cons text
  rw [hwritten]
  rcases hmark with rfl | rfl <;> rfl

theorem skipGap_writeText (text : String) (rest : List Char) :
    skipGap false (writeText text ++ rest) = writeText text ++ rest := by
  obtain ⟨mark, more, hwritten, hmark⟩ := writeText_eq_cons text
  rw [hwritten]
  rcases hmark with rfl | rfl <;> rfl

theorem closes_cons {c : Char} (h : c ≠ '"' ∧ c ≠ '\'') (rest : List Char) : Closes (c :: rest) :=
  ⟨by simpa using h.1, by simpa using h.2⟩

/-- One item of an array, behind the space and the line ends before it. -/
theorem readItems_of_skipGap {depth fuel : Nat} {s tail : List Char} {text : String}
    (hs : skipGap false s = writeText text ++ tail) (htail : Closes tail) :
    readItems (readValue depth) (fuel + 1) s =
      match skipGap false tail with
      | ']' :: rest => some ([.string text], rest)
      | ',' :: rest =>
        (readItems (readValue depth) fuel rest).map fun x => (.string text :: x.1, x.2)
      | _ => none := by
  have hread := readValue_writeText depth text htail
  obtain ⟨mark, more, hwritten, hmark⟩ := writeText_eq_cons text
  rw [hwritten] at hs hread
  have hopen : mark ≠ ']' := by
    rcases hmark with rfl | rfl <;> decide
  rw [readItems, hs]
  split
  · next rest heq => exact absurd (List.cons.inj heq).1 hopen
  · rw [hread, Option.bind_eq_bind, Option.bind_some]
    dsimp only
    generalize skipGap false tail = gap
    rcases gap with - | ⟨c, gap⟩
    · rfl
    · by_cases hclose : c = ']'
      · rw [hclose]
        rfl
      · by_cases hcomma : c = ','
        · rw [hcomma]
          exact Option.map_eq_bind.symm
        · simp [hclose, hcomma]

theorem readItems_one (depth fuel : Nat) (text : String) (rest : List Char) :
    readItems (readValue depth) (fuel + 1) (writeText text ++ ']' :: rest) =
      some ([.string text], rest) :=
  readItems_of_skipGap (skipGap_writeText text _) (closes_cons (by decide) rest)

theorem readItems_lines (depth : Nat) (texts : List String) (rest : List Char) (fuel : Nat)
    (hfuel : (texts.flatMap writeItem).length < fuel) :
    readItems (readValue depth) fuel ('\n' :: (texts.flatMap writeItem ++ ']' :: rest)) =
      some (texts.map .string, rest) := by
  induction texts generalizing fuel with
  | nil =>
    obtain ⟨n, rfl⟩ : ∃ n, fuel = n + 1 := ⟨fuel - 1, by omega⟩
    rfl
  | cons text texts ih =>
    rw [List.flatMap_cons, List.length_append, writeItem, List.length_append, List.length_append]
      at hfuel
    simp only [List.length_cons] at hfuel
    obtain ⟨n, rfl⟩ : ∃ n, fuel = n + 1 := ⟨fuel - 1, by omega⟩
    have hskip : skipGap false ('\n' :: ((text :: texts).flatMap writeItem ++ ']' :: rest)) =
        writeText text ++ ',' :: '\n' :: (texts.flatMap writeItem ++ ']' :: rest) := by
      rw [← skipGap_writeText text (',' :: '\n' :: _)]
      simp [writeItem, skipGap, isSpace]
    rw [readItems_of_skipGap hskip (closes_cons (by decide) _)]
    show (readItems (readValue depth) n ('\n' :: _)).map _ = _
    rw [ih n (by omega)]
    rfl

theorem readValue_writeTexts (depth : Nat) (texts : List String) (rest : List Char) :
    readValue (depth + 1) (writeTexts texts ++ rest) =
      some (.array false (texts.map .string), rest) := by
  match texts with
  | [] => rfl
  | [text] =>
    have hread := readItems_one depth (writeText text ++ ']' :: rest).length text rest
    simp only [writeTexts, List.append_assoc, List.cons_append, List.nil_append, readValue, hread]
    rfl
  | first :: second :: more =>
    let texts := first :: second :: more
    have hread := readItems_lines depth texts rest
      (('\n' :: (texts.flatMap writeItem ++ ']' :: rest)).length + 1)
      (by simp only [List.length_cons, List.length_append]; omega)
    simp only [writeTexts, List.append_assoc, List.cons_append, List.nil_append, readValue]
    rw [hread]
    rfl

/-! ### Words -/

theorem after_eq_none {c : Char} {s : List Char} (h : c ∉ s) : after c s = none := by
  cases s with
  | nil => rfl
  | cons d s => exact if_neg fun hd : d = c => h (hd ▸ List.mem_cons_self)

theorem readPart_snd {count low high n : Nat} {s rest : List Char}
    (h : readPart count low high s = some (n, rest)) : rest = s.drop count := by
  unfold readPart at h
  dsimp only at h
  split at h
  · cases h
  · obtain ⟨m, -, h⟩ := Option.bind_eq_some_iff.mp h
    split at h
    · exact (Prod.mk.inj (Option.some.inj h)).2.symm
    · cases h

theorem afterTime?_eq_none {s : List Char} (h : ':' ∉ s) : afterTime? s = none := by
  unfold afterTime?
  cases hpart : readPart 2 0 23 s with
  | none => rfl
  | some part =>
    obtain ⟨n, rest⟩ := part
    have hrest : ':' ∉ rest := readPart_snd hpart ▸ fun hmem => h (List.mem_of_mem_drop hmem)
    simp [after_eq_none hrest]

theorem afterDate?_eq_none {s : List Char} (h : '-' ∉ s) : afterDate? s = none := by
  unfold afterDate?
  cases hpart : readPart 4 0 9999 s with
  | none => rfl
  | some part =>
    obtain ⟨n, rest⟩ := part
    have hrest : '-' ∉ rest := readPart_snd hpart ▸ fun hmem => h (List.mem_of_mem_drop hmem)
    simp [after_eq_none hrest]

theorem isMoment_eq_false {s : List Char} (htime : ':' ∉ s) (hdate : '-' ∉ s) :
    isMoment s = false := by
  simp [isMoment, afterTime?_eq_none htime, afterDate?_eq_none hdate]

theorem isDigit_of_mem {n : Nat} {c : Char} (h : c ∈ digits 10 n) : isDigit 10 c = true :=
  isDigit_of_mem_digits (by decide) (by decide) h

theorem not_mem_digits {c : Char} (hc : isDigit 10 c = false) (n : Nat) : c ∉ digits 10 n :=
  fun hmem => absurd (isDigit_of_mem hmem) (by simp [hc])

theorem readDigits?_digits (n : Nat) : readDigits? 10 (digits 10 n) = some (digits 10 n) := by
  have hbar : '_' ∉ digits 10 n := not_mem_digits (by decide) n
  have hplain : (digits 10 n).filter (· ≠ '_') = digits 10 n :=
    List.filter_eq_self.mpr fun c hc => decide_eq_true fun h : c = '_' => hbar (h ▸ hc)
  have htwo : occurs ['_', '_'] (digits 10 n) = false :=
    Bool.eq_false_iff.mpr fun h => hbar (mem_of_occurs h List.mem_cons_self)
  have hread := readNat?_digits (by decide : 1 < 10) (by decide) n
  unfold readDigits?
  dsimp only
  rw [hplain, if_neg, hread]
  · rfl
  · rintro (hfirst | hlast | hoccurs)
    · exact hbar (List.mem_of_mem_head? hfirst)
    · exact hbar (List.mem_of_getLast? hlast)
    · simp [htwo] at hoccurs

theorem readWhole?_digits (n : Nat) : readWhole? (digits 10 n) = some (digits 10 n) := by
  rw [readWhole?, if_neg, readDigits?_digits]
  rintro ⟨hzero, hlong⟩
  rw [head?_digits (by decide) hzero] at hlong
  exact hlong (by decide)

theorem readInteger?_digits (n : Nat) : readInteger? (digits 10 n) = some (n : Int) := by
  have hdigit {c d : Char} {rest : List Char} (h : digits 10 n = c :: d :: rest) :
      isDigit 10 d = true := isDigit_of_mem (by rw [h]; simp)
  have hsign : readSign (digits 10 n) = (false, digits 10 n) := by
    unfold readSign
    split
    · next h => exact absurd (h ▸ List.mem_cons_self) (not_mem_digits (by decide) n)
    · next h => exact absurd (h ▸ List.mem_cons_self) (not_mem_digits (by decide) n)
    · rfl
  unfold readInteger?
  split
  · next h => exact absurd (hdigit h) (by decide)
  · next h => exact absurd (hdigit h) (by decide)
  · next h => exact absurd (hdigit h) (by decide)
  · simp only [hsign, readWhole?_digits, Option.map_some, Bool.false_eq_true, if_false]
    rw [ofDigits_digits (by decide) (by decide)]

theorem scalar?_digits (n : Nat) : scalar? (digits 10 n) = some (.integer n) := by
  have hword {word : List Char} (h : 'e' ∈ word) : digits 10 n ≠ word :=
    fun heq => not_mem_digits (by decide) n (heq ▸ h)
  have hmoment : isMoment (digits 10 n) = false :=
    isMoment_eq_false (not_mem_digits (by decide) n) (not_mem_digits (by decide) n)
  rw [scalar?, if_neg (hword (by decide)), if_neg (hword (by decide)), hmoment,
    readInteger?_digits]
  rfl

theorem scalar?_boolean (b : Bool) : scalar? (writeBoolean b) = some (.boolean b) := by
  cases b <;> rfl

/-- A word that stands alone on the rest of its line. -/
theorem readValue_word (depth : Nat) {word : List Char} (hne : word ≠ [])
    (hword : ∀ c ∈ word, isScalarChar c = true) (rest : List Char) :
    readValue depth (word ++ '\n' :: rest) = (scalar? word).map (·, '\n' :: rest) := by
  have hsplit : scalarSplit (word ++ '\n' :: rest) = (word, '\n' :: rest) := by
    have htake : (word ++ '\n' :: rest).takeWhile isScalarChar = word := by
      rw [List.takeWhile_append_of_pos hword, List.takeWhile_cons_of_neg (by decide),
        List.append_nil]
    have hdrop : (word ++ '\n' :: rest).dropWhile isScalarChar = '\n' :: rest := by
      rw [List.dropWhile_append_of_pos hword, List.dropWhile_cons_of_neg (by decide)]
    simp [scalarSplit, htake, hdrop]
  obtain ⟨c, more, rfl⟩ := List.exists_cons_of_ne_nil hne
  have hother (d : Char) (hd : isScalarChar d = false) : c ≠ d := by
    rintro rfl
    simp [hword c List.mem_cons_self] at hd
  have hscalar : readScalar (c :: more ++ '\n' :: rest) =
      (scalar? (c :: more)).map (·, '\n' :: rest) := by
    unfold readScalar
    split
    · next h => exact absurd (List.cons.inj h).1 (hother _ (by decide))
    · next h => exact absurd (List.cons.inj h).1 (hother _ (by decide))
    · rw [hsplit]
  cases depth with
  | zero => exact hscalar
  | succ depth =>
    unfold readValue
    split
    · next h => exact absurd (List.cons.inj h).1 (hother _ (by decide))
    · next h => exact absurd (List.cons.inj h).1 (hother _ (by decide))
    · exact hscalar

end DnsFanout.Toml
