import DnsFanout.Toml.Text
import DnsFanout.Toml.Writer

/-! Quoted text is read back as it was written, whatever it holds and in whichever of the
four styles. Between long marks the text is cut at its runs of marks, which the writer keeps
short enough to be told from the marks that close it. -/

namespace DnsFanout.Toml

open Text

/-! ### Pieces -/

section

variable {step : List Char → Option Piece} {s text rest : List Char}

/-- The pieces that are cut off `s` make `text`, and `rest` is what they leave. -/
def Collects (step : List Char → Option Piece) (s text rest : List Char) : Prop :=
  ∀ fuel, s.length < fuel → collect step fuel s = some (text, rest)

theorem Collects.last (h : step s = some (.last text rest)) : Collects step s text rest := by
  intro fuel hfuel
  obtain ⟨n, rfl⟩ : ∃ n, fuel = n + 1 := ⟨fuel - 1, by omega⟩
  simp [collect, h]

theorem Collects.part {w chars : List Char} (hw : w ≠ [])
    (hstep : step (w ++ s) = some (.part chars s)) (h : Collects step s text rest) :
    Collects step (w ++ s) (chars ++ text) rest := by
  intro fuel hfuel
  have hlength := List.length_pos_iff.mpr hw
  rw [List.length_append] at hfuel
  obtain ⟨n, rfl⟩ : ∃ n, fuel = n + 1 := ⟨fuel - 1, by omega⟩
  simp [collect, hstep, h n (by omega)]

theorem readWith_of_collects (h : Collects step s text rest) :
    readWith step s = some (String.ofList text, rest) := by
  simp [readWith, h (s.length + 1) (Nat.lt_succ_self _)]

/-- Characters that are read one by one, up to a mark that closes them. -/
theorem collects_flatMap {f : Char → List Char} {mark : Char}
    (hpart : ∀ c ∈ text, f c ≠ [] ∧ ∀ tail, step (f c ++ tail) = some (.part [c] tail))
    (hlast : step (mark :: rest) = some (.last [] rest)) :
    Collects step (text.flatMap f ++ mark :: rest) text rest := by
  induction text with
  | nil => exact .last hlast
  | cons c text ih =>
    obtain ⟨hne, hstep⟩ := hpart c List.mem_cons_self
    have htail := ih fun d hd => hpart d (List.mem_cons_of_mem c hd)
    rw [List.flatMap_cons, List.append_assoc]
    exact .part hne (hstep _) htail

end

/-! ### Characters -/

theorem isPlain_of_needsEscape {c : Char} (h : needsEscape c = false) (hbreak : c ≠ '\n') :
    isPlain c = true := by
  by_cases htab : c = '\t'
  · simp [isPlain, htab]
  · have hcode : ¬c.toNat < 32 ∧ c.toNat ≠ 127 := by simpa [needsEscape, htab, hbreak] using h
    simp [isPlain, Nat.not_lt.mp hcode.1, hcode.2]

theorem readCodePoint_padded {c : Char} (h : needsEscape c = true) (tail : List Char) :
    readCodePoint 4 ((padded 16 4 c.toNat).map Char.toUpper ++ tail) = some (.part [c] tail) := by
  have hlow : c.toNat < 128 := by
    simp only [needsEscape, Bool.or_eq_true, Bool.and_eq_true, decide_eq_true_eq] at h
    omega
  have hread : ∀ n < 128, readNat? 16 ((padded 16 4 n).map Char.toUpper) = some n := by decide
  have hlength : ((padded 16 4 c.toNat).map Char.toUpper).length = 4 := by simp [padded]
  have hvalid : c.toNat.isValidChar := c.valid
  rw [readCodePoint, if_neg (by rw [List.length_append]; omega), List.take_left' hlength,
    List.drop_left' hlength, hread _ hlow, Option.bind_some, if_pos hvalid, Char.ofNat_toNat]

/-- The characters with a letter of their own behind the backslash. -/
def namedEscapes : List (Char × Char) :=
  [('\x08', 'b'), ('\t', 't'), ('\n', 'n'), ('\x0c', 'f'), ('\r', 'r'), ('"', '"'), ('\\', '\\')]

theorem escapeChar_named {c d : Char} (h : (c, d) ∈ namedEscapes) :
    escapeChar c = ['\\', d] ∧ ∀ tail, readEscape (d :: tail) = some (.part [c] tail) ∧
      afterBreak? (skipSpace (d :: tail)) = none := by
  simp only [namedEscapes, List.mem_cons, Prod.mk.injEq, List.not_mem_nil, or_false] at h
  rcases h with ⟨rfl, rfl⟩ | ⟨rfl, rfl⟩ | ⟨rfl, rfl⟩ | ⟨rfl, rfl⟩ | ⟨rfl, rfl⟩ | ⟨rfl, rfl⟩ |
    ⟨rfl, rfl⟩
  all_goals exact ⟨rfl, fun tail => ⟨rfl, rfl⟩⟩

theorem escapeChar_unnamed {c : Char} (h : c ∉ namedEscapes.map Prod.fst) :
    escapeChar c = if needsEscape c then
      '\\' :: 'u' :: (padded 16 4 c.toNat).map Char.toUpper else [c] := by
  simp only [namedEscapes, List.map_cons, List.map_nil, List.mem_cons, List.not_mem_nil, or_false,
    not_or] at h
  simp only [escapeChar, h, if_false]

/-- A character between basic marks is an escape that stands for it, or stands for itself. -/
theorem escapeChar_cases (c : Char) :
    (∃ w, escapeChar c = '\\' :: w ∧
      ∀ tail, readEscape (w ++ tail) = some (.part [c] tail) ∧
        afterBreak? (skipSpace (w ++ tail)) = none) ∨
    escapeChar c = [c] ∧ isPlain c = true ∧ c ≠ '"' ∧ c ≠ '\\' ∧ c ≠ '\n' ∧ c ≠ '\r' := by
  by_cases hnamed : c ∈ namedEscapes.map Prod.fst
  · obtain ⟨⟨c, d⟩, hmem, rfl⟩ := List.mem_map.mp hnamed
    obtain ⟨hw, hread⟩ := escapeChar_named hmem
    exact .inl ⟨[d], hw, hread⟩
  · have hescape := escapeChar_unnamed hnamed
    have hother : ∀ d ∈ namedEscapes.map Prod.fst, c ≠ d := fun d hd hcd => hnamed (hcd ▸ hd)
    by_cases hneeds : needsEscape c = true
    · rw [if_pos hneeds] at hescape
      refine .inl ⟨_, hescape, fun tail => ⟨?_, rfl⟩⟩
      exact readCodePoint_padded hneeds tail
    · rw [if_neg hneeds] at hescape
      have hn : c ≠ '\n' := hother _ (by decide)
      exact .inr ⟨hescape, isPlain_of_needsEscape (Bool.eq_false_iff.mpr hneeds) hn,
        hother _ (by decide), hother _ (by decide), hn, hother _ (by decide)⟩

/-- What is written for a character begins with no quotation mark and no line end. -/
theorem exists_head?_escapeChar (c : Char) :
    ∃ d, (escapeChar c).head? = some d ∧ d ≠ '"' ∧ d ≠ '\n' ∧ d ≠ '\r' := by
  rcases escapeChar_cases c with ⟨w, hw, -⟩ | ⟨hw, -, hquote, -, hn, hr⟩
  · exact ⟨'\\', by rw [hw, List.head?_cons], by decide⟩
  · exact ⟨c, by rw [hw, List.head?_cons], hquote, hn, hr⟩

theorem escapeChar_ne_nil (c : Char) : escapeChar c ≠ [] := by
  obtain ⟨d, hd, -⟩ := exists_head?_escapeChar c
  intro hnil
  rw [hnil] at hd
  cases hd

theorem stepBasic_escapeChar (c : Char) (tail : List Char) :
    stepBasic (escapeChar c ++ tail) = some (.part [c] tail) := by
  rcases escapeChar_cases c with ⟨w, hw, hread⟩ | ⟨hw, hplain, hquote, hslash, -⟩
  · rw [hw]
    exact (hread tail).1
  · rw [hw]
    simp [stepBasic, readPlain, hplain, hquote, hslash]

theorem stepLongBasic_escapeChar (c : Char) (tail : List Char) :
    stepLongBasic (escapeChar c ++ tail) = some (.part [c] tail) := by
  rcases escapeChar_cases c with ⟨w, hw, hread⟩ | ⟨hw, hplain, hquote, hslash, hn, hr⟩
  · rw [hw, List.cons_append, stepLongBasic, (hread tail).2]
    exact (hread tail).1
  · rw [hw]
    simp [stepLongBasic, readBroken, readPlain, hplain, hquote, hslash, hn, hr]

theorem stepLiteral_plain {c : Char} (hplain : isPlain c = true) (hquote : c ≠ '\'')
    (tail : List Char) : stepLiteral ([c] ++ tail) = some (.part [c] tail) := by
  simp [stepLiteral, readPlain, hplain, hquote]

theorem stepLongLiteral_kept {c : Char} (hkept : needsEscape c = false) (hquote : c ≠ '\'')
    (tail : List Char) : stepLongLiteral ([c] ++ tail) = some (.part [c] tail) := by
  by_cases hn : c = '\n'
  · rw [hn]
    rfl
  · have hr : c ≠ '\r' := by
      rintro rfl
      cases hkept
    simp [stepLongLiteral, readBroken, readPlain, isPlain_of_needsEscape hkept hn, hquote, hn, hr]

/-! ### Runs of marks -/

theorem takeWhile_run {mark : Char} (k : Nat) {s : List Char} (hs : s.head? ≠ some mark) :
    (List.replicate k mark ++ s).takeWhile (· = mark) = List.replicate k mark := by
  rw [List.takeWhile_append_of_pos (by simp)]
  cases s with
  | nil => simp
  | cons c s =>
    have hc : c ≠ mark := by simpa using hs
    simp [hc]

theorem readMarks_part {mark : Char} {k : Nat} (hk : k ≤ 2) {s : List Char}
    (hs : s.head? ≠ some mark) :
    readMarks mark (List.replicate k mark ++ s) = .part (List.replicate k mark) s := by
  have hrun : min k 5 = k := by omega
  simp only [readMarks, takeWhile_run k hs, List.length_replicate, hrun]
  rw [if_pos (by omega), List.drop_left' List.length_replicate]

theorem readMarks_last {mark : Char} {k : Nat} (hk : k ≤ 2) {rest : List Char}
    (hrest : rest.head? ≠ some mark) :
    readMarks mark (List.replicate (k + 3) mark ++ rest) = .last (List.replicate k mark) rest := by
  have hrun : min (k + 3) 5 = k + 3 := by omega
  simp only [readMarks, takeWhile_run (k + 3) hrest, List.length_replicate, hrun]
  rw [if_neg (by omega), List.drop_left' List.length_replicate, Nat.add_sub_cancel]

/-- A text as it is written between long marks: characters that are read one by one, and runs
of at most two marks. -/
inductive Spelled (step : List Char → Option Piece) (mark : Char) : List Char → List Char → Prop
  | nil : Spelled step mark [] []
  | char {c : Char} {w text written : List Char} (hw : ∃ d, w.head? = some d ∧ d ≠ mark)
    (hstep : ∀ tail, step (w ++ tail) = some (.part [c] tail))
    (h : Spelled step mark text written) : Spelled step mark (c :: text) (w ++ written)
  | run {k : Nat} (hk : k ≤ 2) {text written : List Char} (hw : written.head? ≠ some mark)
    (h : Spelled step mark text written) :
    Spelled step mark (List.replicate k mark ++ text) (List.replicate k mark ++ written)

section

variable {step : List Char → Option Piece} {mark : Char} {text written rest : List Char}

theorem Spelled.eq_nil (h : Spelled step mark text []) : text = [] := by
  generalize hwritten : ([] : List Char) = written at h
  induction h with
  | nil => rfl
  | char hw hstep h ih =>
    obtain ⟨d, hd, -⟩ := hw
    rw [(List.append_eq_nil_iff.mp hwritten.symm).1] at hd
    cases hd
  | run hk hw h ih =>
    obtain ⟨hnil, hrest⟩ := List.append_eq_nil_iff.mp hwritten.symm
    rw [hnil, ih hrest.symm, List.nil_append]

/-- The marks behind a text close it, those that belong to it in front of them. -/
theorem Spelled.collects (hmarks : ∀ s, step (mark :: s) = some (readMarks mark (mark :: s)))
    (hrest : rest.head? ≠ some mark) (h : Spelled step mark text written) :
    Collects step (written ++ (List.replicate 3 mark ++ rest)) text rest := by
  induction h with
  | nil => exact .last ((hmarks _).trans (congrArg some (readMarks_last (k := 0) (by omega) hrest)))
  | char hw hstep h ih =>
    obtain ⟨d, hd, -⟩ := hw
    rw [List.append_assoc]
    exact .part (by rintro rfl; cases hd) (hstep _) ih
  | @run k hk text written hw h ih =>
    rw [List.append_assoc]
    cases k with
    | zero => exact ih
    | succ k =>
      have hstep (s : List Char) : step (List.replicate (k + 1) mark ++ s) =
          some (readMarks mark (List.replicate (k + 1) mark ++ s)) := hmarks _
      cases written with
      | nil =>
        -- the run meets the marks that close the text
        obtain rfl := h.eq_nil
        rw [List.nil_append, List.append_nil, ← List.append_assoc, List.replicate_append_replicate]
        exact .last ((hmarks _).trans (congrArg some (readMarks_last hk hrest)))
      | cons c written =>
        exact .part (by simp) ((hstep _).trans (congrArg some (readMarks_part hk hw))) ih

end

theorem run_le_longestRun (mark : Char) (run : Nat) (s : List Char) :
    run ≤ longestRun mark run s := by
  induction s generalizing run with
  | nil => exact Nat.le_refl run
  | cons c s ih =>
    rw [longestRun]
    split
    · exact Nat.le_of_succ_le (ih (run + 1))
    · exact Nat.le_max_left _ _

/-- Literal text with short runs of marks is written as it is. -/
theorem spelled_literal {s : List Char} (hkept : ∀ c ∈ s, needsEscape c = false) (run : Nat)
    (hrun : longestRun '\'' run s ≤ 2) :
    Spelled stepLongLiteral '\'' (List.replicate run '\'' ++ s) (List.replicate run '\'' ++ s) := by
  induction s generalizing run with
  | nil => exact .run hrun (by simp) .nil
  | cons c s ih =>
    have hrest := fun d hd => hkept d (List.mem_cons_of_mem c hd)
    by_cases hc : c = '\''
    · subst hc
      rw [longestRun, if_pos rfl] at hrun
      have hnext := ih hrest _ hrun
      rwa [List.replicate_succ', List.append_assoc] at hnext
    · rw [longestRun, if_neg hc, Nat.max_le] at hrun
      have hnext := ih hrest 0 hrun.2
      exact .run hrun.1 (by simpa using hc) (.char (w := [c]) ⟨c, rfl, hc⟩
        (stepLongLiteral_kept (hkept c List.mem_cons_self) hc) hnext)

/-- Every third mark in a row is escaped, so that no run is longer than two. -/
theorem spelled_escapeLong (s : List Char) (run : Nat) (hrun : run ≤ 2) :
    Spelled stepLongBasic '"' (List.replicate run '"' ++ s)
      (List.replicate run '"' ++ escapeLong run s) := by
  induction s generalizing run with
  | nil => exact .run hrun (by simp [escapeLong]) .nil
  | cons c s ih =>
    have hnext := ih 0 (by omega)
    rw [escapeLong]
    by_cases hn : c = '\n'
    · rw [if_pos hn, hn]
      exact .run hrun (by simp) (.char (w := ['\n']) ⟨_, rfl, by decide⟩ (fun _ => rfl) hnext)
    rw [if_neg hn]
    by_cases hquote : c = '"' ∧ run < 2
    · rw [if_pos hquote, hquote.1]
      have hmore := ih (run + 1) hquote.2
      rwa [List.replicate_succ', List.append_assoc, List.append_assoc] at hmore
    · rw [if_neg hquote]
      obtain ⟨d, hd, hne, -⟩ := exists_head?_escapeChar c
      refine .run hrun ?_ (.char ⟨d, hd, hne⟩ (stepLongBasic_escapeChar c) hnext)
      simpa [List.head?_append, hd] using hne

/-! ### Texts -/

theorem longestRun_eq_zero {mark : Char} {s : List Char} (h : longestRun mark 0 s = 0) :
    mark ∉ s := by
  induction s with
  | nil => exact List.not_mem_nil
  | cons c s ih =>
    rw [longestRun] at h
    split at h
    · have := run_le_longestRun mark (0 + 1) s
      omega
    · next hc => exact fun hmem => (List.mem_cons.mp hmem).elim (Ne.symm hc) (ih (by omega))

/-- What a style asks of the text between its marks. -/
def Style.Fits (s : List Char) : Style → Prop
  | .basic | .longBasic => True
  | .literal => (∀ c ∈ s, needsEscape c = false) ∧ '\n' ∉ s ∧ '\'' ∉ s
  | .longLiteral => (∀ c ∈ s, needsEscape c = false) ∧ longestRun '\'' 0 s ≤ 2

theorem Style.fits_select (s : List Char) : (Style.select s).Fits s := by
  have hkept (h : (!s.any needsEscape) = true) : ∀ c ∈ s, needsEscape c = false := by
    simpa using h
  unfold Style.select
  dsimp only
  split
  · trivial
  split
  · next h =>
    simp only [Bool.and_eq_true, decide_eq_true_eq] at h
    exact ⟨hkept h.1.1, by simpa using h.1.2, longestRun_eq_zero h.2⟩
  split
  · trivial
  split
  · next h =>
    simp only [Bool.and_eq_true, decide_eq_true_eq] at h
    exact ⟨hkept h.1, h.2⟩
  split
  · trivial
  · trivial

/-- What follows a quoted text, and is no mark that could belong to it. -/
def Closes (rest : List Char) : Prop := rest.head? ≠ some '"' ∧ rest.head? ≠ some '\''

theorem readQuoted_basic {s : List Char} (h : ¬['"', '"'] <+: s) :
    readQuoted ('"' :: s) = readWith stepBasic s := by
  match s, h with
  | [], _ => rfl
  | [c], _ => simp [readQuoted]
  | c :: d :: s, h =>
    have hcd : ¬(c = '"' ∧ d = '"') := fun hcd => h (by simp [hcd])
    unfold readQuoted
    split <;> simp_all

theorem readQuoted_literal {s : List Char} (h : ¬['\'', '\''] <+: s) :
    readQuoted ('\'' :: s) = readWith stepLiteral s := by
  match s, h with
  | [], _ => rfl
  | [c], _ => simp [readQuoted]
  | c :: d :: s, h =>
    have hcd : ¬(c = '\'' ∧ d = '\'') := fun hcd => h (by simp [hcd])
    unfold readQuoted
    split <;> simp_all

theorem afterBreak?_lead {s body : List Char}
    (h : '\n' ∉ s → body.head? ≠ some '\n' ∧ body.head? ≠ some '\r') :
    (afterBreak? (lead s ++ body)).getD (lead s ++ body) = body := by
  by_cases hn : '\n' ∈ s
  · simp [lead, hn, afterBreak?]
  · obtain ⟨hbreak, hreturn⟩ := h hn
    simp only [lead, List.contains_eq_mem, hn, decide_false, Bool.false_eq_true, if_false,
      List.nil_append]
    unfold afterBreak?
    split <;> simp_all

section

variable {s rest : List Char} (hrest : Closes rest)

include hrest

theorem readQuoted_writeBasic :
    readQuoted (writeStyled s .basic ++ rest) = some (String.ofList s, rest) := by
  have hshort : ¬['"', '"'] <+: s.flatMap escapeChar ++ '"' :: rest := by
    rintro ⟨tail, htail⟩
    cases s with
    | nil =>
      obtain rfl : '"' :: tail = rest := (List.cons.inj htail).2
      exact hrest.1 rfl
    | cons c s =>
      have hhead := congrArg List.head? htail
      obtain ⟨d, hd, hquote, -⟩ := exists_head?_escapeChar c
      simp only [List.flatMap_cons, List.append_assoc, List.head?_append, hd,
        Option.some_or] at hhead
      exact hquote (Option.some.inj hhead).symm
  have hwritten : writeStyled s .basic ++ rest = '"' :: (s.flatMap escapeChar ++ '"' :: rest) := by
    simp [writeStyled]
  rw [hwritten, readQuoted_basic hshort]
  exact readWith_of_collects
    (collects_flatMap (fun c _ => ⟨escapeChar_ne_nil c, stepBasic_escapeChar c⟩) rfl)

theorem readQuoted_writeLiteral (h : Style.literal.Fits s) :
    readQuoted (writeStyled s .literal ++ rest) = some (String.ofList s, rest) := by
  obtain ⟨hkept, hbreak, hmark⟩ := h
  have hshort : ¬['\'', '\''] <+: s ++ '\'' :: rest := by
    rintro ⟨tail, htail⟩
    cases s with
    | nil =>
      obtain rfl : '\'' :: tail = rest := (List.cons.inj htail).2
      exact hrest.2 rfl
    | cons c s =>
      obtain rfl : '\'' = c := (List.cons.inj htail).1
      exact hmark List.mem_cons_self
  have hplain : ∀ c ∈ s, [c] ≠ [] ∧ ∀ tail, stepLiteral ([c] ++ tail) = some (.part [c] tail) := by
    intro c hc
    have hn : c ≠ '\n' := fun h => hbreak (h ▸ hc)
    exact ⟨by simp, stepLiteral_plain (isPlain_of_needsEscape (hkept c hc) hn)
      fun h => hmark (h ▸ hc)⟩
  have hwritten : writeStyled s .literal ++ rest =
      '\'' :: (s.flatMap (fun c => [c]) ++ '\'' :: rest) := by
    simp [writeStyled]
  rw [← List.flatMap_singleton' s] at hshort
  rw [hwritten, readQuoted_literal hshort]
  exact readWith_of_collects (collects_flatMap hplain rfl)

theorem readQuoted_writeLongBasic :
    readQuoted (writeStyled s .longBasic ++ rest) = some (String.ofList s, rest) := by
  have hbody : '\n' ∉ s → (escapeLong 0 s ++ (List.replicate 3 '"' ++ rest)).head? ≠ some '\n' ∧
      (escapeLong 0 s ++ (List.replicate 3 '"' ++ rest)).head? ≠ some '\r' := by
    intro hn
    cases s with
    | nil => exact ⟨by simp [escapeLong], by simp [escapeLong]⟩
    | cons c s =>
      have hc : c ≠ '\n' := fun h => hn (h ▸ List.mem_cons_self)
      by_cases hquote : c = '"'
      · exact ⟨by simp [escapeLong, hquote], by simp [escapeLong, hquote]⟩
      · obtain ⟨d, hd, -, hbreak, hreturn⟩ := exists_head?_escapeChar c
        simp only [escapeLong, hc, hquote, false_and, if_false, List.append_assoc,
          List.head?_append, hd, Option.some_or]
        exact ⟨by simpa using hbreak, by simpa using hreturn⟩
  have hwritten : writeStyled s .longBasic ++ rest =
      '"' :: '"' :: '"' :: (lead s ++ (escapeLong 0 s ++ (List.replicate 3 '"' ++ rest))) := by
    simp [writeStyled, List.replicate]
  rw [hwritten, readQuoted, readLong, afterBreak?_lead hbody]
  exact readWith_of_collects
    ((spelled_escapeLong s 0 (by omega)).collects (fun _ => rfl) hrest.1)

theorem readQuoted_writeLongLiteral (h : Style.longLiteral.Fits s) :
    readQuoted (writeStyled s .longLiteral ++ rest) = some (String.ofList s, rest) := by
  obtain ⟨hkept, hrun⟩ := h
  have hbody : '\n' ∉ s → (s ++ (List.replicate 3 '\'' ++ rest)).head? ≠ some '\n' ∧
      (s ++ (List.replicate 3 '\'' ++ rest)).head? ≠ some '\r' := by
    intro hn
    cases s with
    | nil => exact ⟨by simp, by simp⟩
    | cons c s =>
      have hc : c ≠ '\n' := fun h => hn (h ▸ List.mem_cons_self)
      have hreturn : c ≠ '\r' := by
        rintro rfl
        exact absurd (hkept '\r' List.mem_cons_self) (by decide)
      exact ⟨by simpa using hc, by simpa using hreturn⟩
  have hwritten : writeStyled s .longLiteral ++ rest =
      '\'' :: '\'' :: '\'' :: (lead s ++ (s ++ (List.replicate 3 '\'' ++ rest))) := by
    simp [writeStyled, List.replicate]
  rw [hwritten, readQuoted, readLong, afterBreak?_lead hbody]
  exact readWith_of_collects
    ((spelled_literal hkept 0 hrun).collects (fun _ => rfl) hrest.2)

/-- Every text is read back from what is written for it, in front of whatever cannot be part
of it. -/
theorem readQuoted_writeText (text : String) :
    readQuoted (writeText text ++ rest) = some (text, rest) := by
  have hread (style : Style) (h : style.Fits text.toList) :
      readQuoted (writeStyled text.toList style ++ rest) =
        some (String.ofList text.toList, rest) := by
    cases style with
    | basic => exact readQuoted_writeBasic hrest
    | literal => exact readQuoted_writeLiteral hrest h
    | longBasic => exact readQuoted_writeLongBasic hrest
    | longLiteral => exact readQuoted_writeLongLiteral hrest h
  rw [writeText, hread _ (Style.fits_select _), String.ofList_toList]

end

end DnsFanout.Toml
