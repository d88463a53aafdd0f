import DnsFanout.Proofs.Toml.Values
import Mathlib.Data.List.Nodup

/-! A document in sections is read as it was written: each line is a statement of its own, and
the statements of a section make its table. -/

namespace DnsFanout.Toml

open Text

/-! ### Lines -/

/-- What is written on the rest of a line is read back as the value. -/
def Reads (written : List Char) (v : Value) : Prop :=
  ∀ rest, readValue maxDepth (skipSpace (written ++ '\n' :: rest)) = some (v, '\n' :: rest)

theorem skipSpace_cons {c : Char} (h : isSpace c = false) (s : List Char) :
    skipSpace (c :: s) = c :: s := List.dropWhile_cons_of_neg (by simp [h])

theorem reads_text (text : String) : Reads (writeText text) (.string text) := by
  intro rest
  rw [skipSpace_writeText]
  exact readValue_writeText maxDepth text (closes_cons (by decide) rest)

theorem reads_texts (texts : List String) :
    Reads (writeTexts texts) (.array false (texts.map .string)) := by
  intro rest
  have hopen : ∃ more, writeTexts texts = '[' :: more := by
    match texts with
    | [] => exact ⟨_, rfl⟩
    | [_] => exact ⟨_, rfl⟩
    | _ :: _ :: _ => exact ⟨_, rfl⟩
  obtain ⟨more, hmore⟩ := hopen
  rw [hmore, List.cons_append, skipSpace_cons (by decide), ← List.cons_append, ← hmore]
  exact readValue_writeTexts 79 texts ('\n' :: rest)

theorem isSpace_eq_false {c : Char} (h : isScalarChar c = true) : isSpace c = false := by
  refine Bool.eq_false_iff.mpr fun hspace => ?_
  simp only [isSpace, Bool.or_eq_true, decide_eq_true_eq] at hspace
  rcases hspace with rfl | rfl <;> cases h

theorem reads_word {word : List Char} {v : Value} (hne : word ≠ [])
    (hword : ∀ c ∈ word, isScalarChar c = true) (h : scalar? word = some v) : Reads word v := by
  intro rest
  obtain ⟨c, more, rfl⟩ := List.exists_cons_of_ne_nil hne
  have hspace : isSpace c = false := isSpace_eq_false (hword c List.mem_cons_self)
  rw [List.cons_append, skipSpace_cons hspace, ← List.cons_append,
    readValue_word maxDepth hne hword, h]
  rfl

theorem isScalarChar_of_isDigit {base : Nat} {c : Char} (h : isDigit base c = true) :
    isScalarChar c = true := by
  by_cases hdigit : '0' ≤ c ∧ c ≤ '9'
  · simp [isScalarChar, isKeyChar, hdigit.1, hdigit.2]
  · by_cases hlower : 'a' ≤ c ∧ c ≤ 'z'
    · simp [isScalarChar, isKeyChar, hlower.1, hlower.2]
    · by_cases hupper : 'A' ≤ c ∧ c ≤ 'Z'
      · simp [isScalarChar, isKeyChar, hupper.1, hupper.2]
      · simp [isDigit, digit?, hdigit, hlower, hupper] at h

theorem reads_number (n : Nat) : Reads (writeNumber n) (.integer n) :=
  reads_word (digits_ne_nil n) (fun _ hc => isScalarChar_of_isDigit (isDigit_of_mem hc))
    (scalar?_digits n)

theorem reads_boolean (b : Bool) : Reads (writeBoolean b) (.boolean b) := by
  cases b with
  | false => exact reads_word nofun (List.all_eq_true.mp rfl) (scalar?_boolean false)
  | true => exact reads_word nofun (List.all_eq_true.mp rfl) (scalar?_boolean true)

/-- A key that needs no marks. -/
def isBare (key : String) : Bool := key.toList ≠ [] && key.toList.all isKeyChar

/-- A line that gives a key its value, as it is written and as it is read. -/
structure Line where
  key : String
  written : List Char
  value : Value
  bare : isBare key = true
  reads : Reads written value

/-- A header and the lines below it. -/
structure Section where
  name : String
  lines : List Line
  bare : isBare name = true
  nodup : (lines.map Line.key).Nodup

def Line.toChars (l : Line) : List Char := assignment l.key l.written

def Section.toChars (s : Section) : List Char := header s.name ++ s.lines.flatMap Line.toChars

def Line.statement (l : Line) : Statement := .assigns [l.key] l.value

def Section.statements (s : Section) : List Statement :=
  .opens [s.name] :: s.lines.map Line.statement

def Section.table (s : Section) : Table := s.lines.map fun l => (l.key, l.value)

theorem Section.keys_table (s : Section) : s.table.map Prod.fst = s.lines.map Line.key := by
  simp [table, Function.comp_def]

/-! ### Statements -/

section

variable {key : String} (hbare : isBare key = true)

include hbare

theorem exists_key_cons :
    ∃ c more, key.toList = c :: more ∧ ∀ d ∈ c :: more, isKeyChar d = true := by
  simp only [isBare, ne_eq, decide_not, Bool.and_eq_true, Bool.not_eq_true',
    decide_eq_false_iff_not, List.all_eq_true] at hbare
  obtain ⟨c, more, hcons⟩ := List.exists_cons_of_ne_nil hbare.1
  exact ⟨c, more, hcons, hcons ▸ hbare.2⟩

theorem isKeyChar_first {tail more : List Char} {c : Char} (h : key.toList ++ tail = c :: more) :
    isKeyChar c = true := by
  obtain ⟨d, rest, hkey, hall⟩ := exists_key_cons hbare
  rw [hkey] at h
  exact (List.cons.inj h).1 ▸ hall d List.mem_cons_self

theorem readPath_bare {tail : List Char} (hstop : ∀ c ∈ tail.head?, isKeyChar c = false)
    (hdot : (skipSpace tail).head? ≠ some '.') :
    readPath (key.toList ++ tail) = some ([key], skipSpace tail) := by
  obtain ⟨c, more, hkey, hall⟩ := exists_key_cons hbare
  have htake : (key.toList ++ tail).takeWhile isKeyChar = key.toList := by
    rw [hkey, List.takeWhile_append_of_pos hall]
    cases tail with
    | nil => simp
    | cons d tail => simp [hstop d rfl]
  have hdrop : (key.toList ++ tail).dropWhile isKeyChar = tail := by
    rw [hkey, List.dropWhile_append_of_pos hall]
    cases tail with
    | nil => rfl
    | cons d tail => simp [hstop d rfl]
  have hread : readKey (key.toList ++ tail) = some (key, tail) := by
    unfold readKey
    split
    · next heq => cases isKeyChar_first hbare heq
    · next heq => cases isKeyChar_first hbare heq
    · have hne : key.toList ≠ [] := by simp [hkey]
      simp [htake, hdrop, hne]
  show readKeys (79 + 1) _ = _
  rw [readKeys, hread]
  simp only [Option.bind_eq_bind, Option.bind_some]
  split
  · next heq => exact absurd (congrArg List.head? heq) hdot
  · rfl

theorem skipSpace_key (tail : List Char) :
    skipSpace (key.toList ++ tail) = key.toList ++ tail := by
  obtain ⟨c, more, hkey, hall⟩ := exists_key_cons hbare
  have hscalar : isScalarChar c = true := by simp [isScalarChar, hall c List.mem_cons_self]
  rw [hkey, List.cons_append, skipSpace_cons (isSpace_eq_false hscalar)]

theorem readStatement_header (rest : List Char) :
    readStatement (header key ++ rest) = some (some (.opens [key]), '\n' :: rest) := by
  have hpath : readPath (key.toList ++ ']' :: '\n' :: rest) = some ([key], ']' :: '\n' :: rest) :=
    readPath_bare hbare (by simp; decide) (by simp [skipSpace_cons (rfl : isSpace ']' = false)])
  have hwritten : header key ++ rest = '[' :: (key.toList ++ ']' :: '\n' :: rest) := by
    simp [header]
  rw [hwritten]
  unfold readStatement
  split
  · next heq => cases isKeyChar_first hbare (List.cons.inj heq).2
  · next heq =>
    rw [← (List.cons.inj heq).2, skipSpace_key hbare, hpath]
    rfl
  · next heq => exact absurd rfl (heq _)

theorem not_break_key (tail : List Char) :
    ¬(key.toList ++ tail = [] ∨ (key.toList ++ tail).head? = some '#' ∨
      (afterBreak? (key.toList ++ tail)).isSome) := by
  obtain ⟨c, more, hkey, hall⟩ := exists_key_cons hbare
  have hc := hall c List.mem_cons_self
  rw [hkey, List.cons_append]
  rintro (hnil | hhash | hbreak)
  · cases hnil
  · obtain rfl : c = '#' := Option.some.inj hhash
    cases hc
  · unfold afterBreak? at hbreak
    split at hbreak
    · next heq => cases (List.cons.inj heq).1 ▸ hc
    · next heq => cases (List.cons.inj heq).1 ▸ hc
    · cases hbreak

theorem readStatement_assignment {written : List Char} {value : Value} (h : Reads written value)
    (rest : List Char) :
    readStatement (assignment key written ++ rest) =
      some (some (.assigns [key] value), '\n' :: rest) := by
  let tail := ' ' :: '=' :: ' ' :: (written ++ '\n' :: rest)
  have hwritten : assignment key written ++ rest = key.toList ++ tail := by
    simp [assignment, tail]
  have hpath : readPath (key.toList ++ tail) =
      some ([key], '=' :: ' ' :: (written ++ '\n' :: rest)) :=
    readPath_bare hbare (by simp [tail]; decide) (by simp [tail, skipSpace, isSpace])
  have hpair : readPair skipSpace (readValue maxDepth) (key.toList ++ tail) =
      some (([key], value), '\n' :: rest) := by
    have hvalue : readValue maxDepth (skipSpace (' ' :: (written ++ '\n' :: rest))) =
        some (value, '\n' :: rest) := h rest
    have hequals : skipSpace ('=' :: ' ' :: (written ++ '\n' :: rest)) =
        '=' :: ' ' :: (written ++ '\n' :: rest) := skipSpace_cons rfl _
    simp only [readPair, hpath, Option.bind_eq_bind, Option.bind_some, hequals, hvalue]
    rfl
  rw [hwritten]
  unfold readStatement
  split
  · next heq => cases isKeyChar_first hbare heq
  · next heq => cases isKeyChar_first hbare heq
  · rw [if_neg (not_break_key hbare tail), hpair]
    rfl

end

/-- The text is read as these statements. -/
def Stands (s : List Char) (statements : List Statement) : Prop :=
  ∀ fuel, s.length < fuel → readStatements fuel s = some statements

theorem stands_nil : Stands [] [] := by
  intro fuel hfuel
  obtain ⟨n, rfl⟩ : ∃ n, fuel = n + 1 := ⟨fuel - 1, by omega⟩
  rfl

variable {s : List Char} {statements : List Statement}

theorem Stands.of_readStatement (front : List Char) (statement : Option Statement)
    (hspace : skipSpace (front ++ s) = front ++ s)
    (hread : readStatement (front ++ s) = some (statement, '\n' :: s)) (hfront : front ≠ [])
    (h : Stands s statements) : Stands (front ++ s) (statement.toList ++ statements) := by
  intro fuel hfuel
  have hlength := List.length_pos_iff.mpr hfront
  rw [List.length_append] at hfuel
  -- a statement takes a character at least, so the fuel lasts for those behind it
  obtain ⟨n, rfl⟩ : ∃ n, fuel = n + 1 := ⟨fuel - 1, by omega⟩
  have hbreak : skipComment (skipSpace ('\n' :: s)) = '\n' :: s := rfl
  simp only [readStatements, hspace, hread, Option.bind_eq_bind, Option.bind_some, hbreak,
    afterBreak?, h n (by omega)]
  rfl

theorem Stands.blank (h : Stands s statements) : Stands ('\n' :: s) statements :=
  .of_readStatement ['\n'] none rfl rfl (by simp) h

theorem Stands.line (l : Line) (h : Stands s statements) :
    Stands (l.toChars ++ s) (l.statement :: statements) := by
  refine .of_readStatement l.toChars (some l.statement) ?_
    (readStatement_assignment l.bare l.reads s) (by simp [Line.toChars, assignment]) h
  simp only [Line.toChars, assignment, List.append_assoc]
  exact skipSpace_key l.bare _

theorem Stands.lines (lines : List Line) (h : Stands s statements) :
    Stands (lines.flatMap Line.toChars ++ s) (lines.map Line.statement ++ statements) := by
  induction lines with
  | nil => exact h
  | cons l lines ih =>
    rw [List.flatMap_cons, List.append_assoc]
    exact .line l ih

theorem Stands.opened (x : Section) (h : Stands s statements) :
    Stands (x.toChars ++ s) (x.statements ++ statements) := by
  rw [Section.toChars, List.append_assoc]
  exact .of_readStatement (header x.name) (some (.opens [x.name])) rfl
    (readStatement_header x.bare _) (by simp [header]) (.lines x.lines h)

/-! ### Tables -/

namespace Table

theorem update_new {key : String} {t : Table} (hnew : key ∉ t.map Prod.fst)
    (f : Option Value → Option Value) :
    update key f t = (f none).map fun v => t ++ [(key, v)] := by
  induction t with
  | nil => rfl
  | cons entry t ih =>
    obtain ⟨k, v⟩ := entry
    rw [List.map_cons, List.mem_cons, not_or] at hnew
    rw [update, if_neg (Ne.symm hnew.1), ih hnew.2, Option.map_map]
    rfl

theorem not_mem_of_nodup {key : String} {v : Value} {t entries : Table}
    (h : ((t ++ (key, v) :: entries).map Prod.fst).Nodup) : key ∉ t.map Prod.fst := by
  rw [List.map_append, List.map_cons, List.nodup_middle, List.nodup_cons] at h
  exact fun hmem => h.1 (List.mem_append_left _ hmem)

theorem assignAll_new (entries : Table) {t : Table} (hnodup : ((t ++ entries).map Prod.fst).Nodup) :
    assignAll (entries.map fun x => ([x.1], x.2)) t = some (t ++ entries) := by
  induction entries generalizing t with
  | nil => simp [assignAll]
  | cons entry entries ih =>
    obtain ⟨key, value⟩ := entry
    have hsplit : t ++ (key, value) :: entries = (t ++ [(key, value)]) ++ entries := by simp
    have hnew := not_mem_of_nodup hnodup
    rw [hsplit] at hnodup ⊢
    rw [← ih hnodup]
    simp [assignAll, assign, update_new hnew]

end Table

theorem leading_append (lines : List Line) (rest : List Statement) :
    leading (lines.map Line.statement ++ rest) =
      (lines.map fun l => ([l.key], l.value)) ++ leading rest := by
  induction lines with
  | nil => rfl
  | cons l lines ih => exact congrArg (([l.key], l.value) :: ·) ih

theorem addSections_append (lines : List Line) (rest : List Statement) (t : Table) :
    addSections (lines.map Line.statement ++ rest) t = addSections rest t := by
  induction lines with
  | nil => rfl
  | cons l lines ih => exact ih

theorem leading_sections (sections : List Section) :
    leading (sections.flatMap Section.statements) = [] := by
  cases sections with
  | nil => rfl
  | cons x sections => rfl

def Section.entry (x : Section) : String × Value := (x.name, .table .header x.table)

theorem addSections_sections (sections : List Section) {t : Table}
    (hnodup : ((t ++ sections.map Section.entry).map Prod.fst).Nodup) :
    addSections (sections.flatMap Section.statements) t =
      some (t ++ sections.map Section.entry) := by
  induction sections generalizing t with
  | nil => simp [addSections]
  | cons x sections ih =>
    have hsplit : t ++ (x :: sections).map Section.entry =
        (t ++ [x.entry]) ++ sections.map Section.entry := by simp
    have hnew : x.name ∉ t.map Prod.fst := Table.not_mem_of_nodup hnodup
    have htable : Table.assignAll (x.lines.map fun l => ([l.key], l.value)) [] = some x.table := by
      have hkeys : (x.table.map Prod.fst).Nodup := x.keys_table ▸ x.nodup
      have hall := Table.assignAll_new x.table (t := []) hkeys
      simpa [Section.table, Function.comp_def] using hall
    have hopen : Table.onPath (Table.openWith (x.lines.map fun l => ([l.key], l.value)))
        [x.name] t = some (t ++ [x.entry]) := by
      rw [Table.onPath, Table.update_new hnew, Table.openWith, htable]
      rfl
    rw [hsplit] at hnodup ⊢
    rw [List.flatMap_cons, Section.statements, List.cons_append, addSections, leading_append,
      leading_sections, List.append_nil, hopen, Option.bind_some, addSections_append]
    exact ih hnodup

/-! ### Documents -/

/-- Sections with an empty line between them. -/
def document : List Section → List Char
  | [] => []
  | [x] => x.toChars
  | x :: y :: more => x.toChars ++ '\n' :: document (y :: more)

theorem stands_document (sections : List Section) :
    Stands (document sections) (sections.flatMap Section.statements) := by
  match sections with
  | [] => exact stands_nil
  | [x] => simpa [document] using stands_nil.opened x
  | x :: y :: more => exact .opened x (.blank (stands_document (y :: more)))

/-- A document in sections is read as their tables. -/
theorem parse_document {sections : List Section}
    (hnodup : (sections.map Section.name).Nodup) :
    parse (String.ofList (document sections)) = some (sections.map Section.entry) := by
  have hmark : ∀ rest, document sections ≠ '\uFEFF' :: rest := by
    intro rest h
    match sections with
    | [] => cases h
    | [x] => cases h
    | x :: y :: more => cases h
  have hnames : (([] ++ sections.map Section.entry).map Prod.fst).Nodup := by
    simpa [Function.comp_def, Section.entry] using hnodup
  unfold parse
  dsimp only
  rw [String.toList_ofList]
  split
  · next heq => exact absurd heq (hmark _)
  · rw [stands_document sections _ (Nat.lt_succ_self _), Option.bind_some, fold,
      leading_sections]
    exact addSections_sections sections hnames

end DnsFanout.Toml
