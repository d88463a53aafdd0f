import DnsFanout.Proofs.NameComparison
import DnsFanout.Proofs.ZoneText

/-! Other spellings of a zone. To the reader of names a letter is a letter in both cases, and a
final dot adds no label. A text that differs from a zone in these is the same zone. -/

namespace DnsFanout

open Text

/-! ### Letters -/

/-- The characters are one character when the case of letters does not count. -/
def SameLetter (c d : Char) : Prop := c.toLower = d.toLower

def IsLetter (c : Char) : Prop := (65 ≤ c.toNat ∧ c.toNat ≤ 90) ∨ (97 ≤ c.toNat ∧ c.toNat ≤ 122)

theorem toNat_toLower (c : Char) :
    c.toLower.toNat = if 65 ≤ c.toNat ∧ c.toNat ≤ 90 then c.toNat + 32 else c.toNat := by
  have hupper : (c.val ≥ 'A'.val ∧ c.val ≤ 'Z'.val) ↔ 65 ≤ c.toNat ∧ c.toNat ≤ 90 := by
    simp only [ge_iff_le, UInt32.le_iff_toNat_le]
    rfl
  unfold Char.toLower
  split
  · next h =>
    rw [if_pos (hupper.mp h)]
    show (c.val + ('a'.val - 'A'.val)).toNat = c.val.toNat + 32
    have := (hupper.mp h).2
    rw [UInt32.toNat_add]
    show (c.toNat + 32) % 4294967296 = c.toNat + 32
    omega
  · next h => rw [if_neg fun hrange => h (hupper.mpr hrange)]

theorem SameLetter.eq_or {c d : Char} (h : SameLetter c d) : c = d ∨ IsLetter c ∧ IsLetter d ∧
    (d.toNat = c.toNat + 32 ∨ c.toNat = d.toNat + 32) := by
  have hcode := congrArg Char.toNat h
  rw [toNat_toLower, toNat_toLower] at hcode
  rw [← Char.toNat_inj]
  unfold IsLetter
  split at hcode <;> split at hcode <;> omega

theorem IsLetter.isWord {c : Char} (h : IsLetter c) : Name.isWord c = true := by
  have hle (a b : Char) : a ≤ b ↔ a.toNat ≤ b.toNat := UInt32.le_iff_toNat_le
  simp only [Name.isWord, Bool.or_eq_true, Bool.and_eq_true, decide_eq_true_eq, hle]
  unfold IsLetter at h
  simp only [Char.reduceToNat]
  omega

theorem IsLetter.ne_dot {c : Char} (h : IsLetter c) : c ≠ '.' := by
  rintro rfl
  exact absurd h (by unfold IsLetter; decide)

theorem SameLetter.eq_dot {c d : Char} (h : SameLetter c d) (hc : c = '.') : d = '.' := by
  rcases h.eq_or with rfl | ⟨hletter, -, -⟩
  · exact hc
  · exact absurd hc hletter.ne_dot

theorem IsLetter.not_numeric {c : Char} (h : IsLetter c) : isNumeric c = false := by
  have hranges : ∀ r ∈ numericRanges, r.2 ≤ 57 ∨ 178 ≤ r.1 := by decide +kernel
  rw [isNumeric, List.any_eq_false]
  intro r hr hin
  simp only [Bool.and_eq_true, decide_eq_true_eq] at hin
  unfold IsLetter at h
  have := hranges r hr
  omega

theorem IsLetter.utf8Size {c : Char} (h : IsLetter c) : c.utf8Size = 1 := by
  rw [Char.utf8Size_eq_one_iff, UInt32.le_iff_toNat_le]
  show c.toNat ≤ 127
  unfold IsLetter at h
  omega

theorem SameLetter.octet {c d : Char} (h : SameLetter c d) :
    SameOctet c.toNat.toUInt8 d.toNat.toUInt8 := by
  rcases h.eq_or with rfl | ⟨hc, hd, hcode⟩
  · exact .inl rfl
  · unfold IsLetter at hc hd
    unfold SameOctet
    simp only [← UInt8.toNat_inj, UInt8.le_iff_toNat_le, UInt8.toNat_add, UInt8.reduceToNat,
      Nat.toUInt8_eq, UInt8.toNat_ofNat']
    omega

/-! ### Labels -/

namespace Name

theorem byteCount_letters {cs ds : List Char} (h : List.Forall₂ SameLetter cs ds) :
    byteCount cs = byteCount ds := by
  induction h with
  | nil => rfl
  | @cons c d cs ds hc _ ih =>
    have hsize : c.utf8Size = d.utf8Size := by
      rcases hc.eq_or with rfl | ⟨hletter, hletter', -⟩
      · rfl
      · rw [hletter.utf8Size, hletter'.utf8Size]
    show c.utf8Size + byteCount cs = d.utf8Size + byteCount ds
    rw [hsize, ih]

theorem isSpelled_letters {cs ds : List Char} (h : List.Forall₂ SameLetter cs ds) :
    isSpelled cs = isSpelled ds := by
  have hword {c d : Char} (h : SameLetter c d) :
      mayLead c = mayLead d ∧ mayFollow c = mayFollow d := by
    rcases h.eq_or with rfl | ⟨hletter, hletter', -⟩
    · exact ⟨rfl, rfl⟩
    · simp [mayLead, mayFollow, hletter.isWord, hletter'.isWord]
  cases h with
  | nil => rfl
  | @cons c d cs ds hc hrest =>
    have hall : cs.all mayFollow = ds.all mayFollow := by
      induction hrest with
      | nil => rfl
      | cons hd _ ih => rw [List.all_cons, List.all_cons, (hword hd).2, ih]
    rw [isSpelled, isSpelled, (hword hc).1, hall]

theorem readLabel_letters {cs ds : List Char} (h : List.Forall₂ SameLetter cs ds) {l : Label}
    (hl : readLabel cs = .ok l) : ∃ m, readLabel ds = .ok m ∧ l.Same m := by
  obtain ⟨hsize, hspelled, hbytes⟩ := readLabel_eq_ok_iff.mp hl
  rw [byteCount_letters h] at hsize
  rw [isSpelled_letters h] at hspelled
  obtain ⟨m, hm⟩ := exists_readLabel hsize hspelled
  refine ⟨m, hm, ?_⟩
  rw [Label.Same, hbytes, (readLabel_eq_ok_iff.mp hm).2.2, List.forall₂_map_left_iff,
    List.forall₂_map_right_iff]
  exact h.imp fun _ _ => SameLetter.octet

theorem wireSize_same {ls ms : List Label} (h : List.Forall₂ Label.Same ls ms) :
    wireSize ls = wireSize ms := by
  induction h with
  | nil => rfl
  | cons hl _ ih => rw [wireSize, wireSize, Label.wireSize, Label.wireSize, hl.length_eq, ih]

theorem push_same {n m n' : Name} {l l' : Label} (hname : n.Same m) (hlabel : l.Same l')
    (h : n.push l = .ok n') : ∃ m', m.push l' = .ok m' ∧ n'.Same m' := by
  have hlabels := (push_eq_ok_iff.mp h).1
  have hsame : List.Forall₂ Label.Same n'.labels (m.labels ++ [l']) :=
    hlabels ▸ List.rel_append hname (.cons hlabel .nil)
  exact ⟨⟨m.labels ++ [l'], m.absolute, wireSize_same hsame ▸ n'.size_le⟩,
    push_eq_ok_iff.mpr ⟨rfl, rfl⟩, hsame⟩

/-! ### The reader -/

/-- Two names half read, of texts that differ in the case of letters. -/
structure Draft.Alike (d e : Draft) : Prop where
  name : d.name.Same e.name
  pending : List.Forall₂ SameLetter d.pending e.pending
  escape : d.escape = e.escape

variable {d e d' : Draft} {c c' : Char} {s t : List Char} {n : Name}

/-- A letter is taken as it is, or it is wrong within the digits of an escape. -/
theorem Draft.step_letter (hc : IsLetter c) : d.step c = .ok d' ↔
    (d.escape = .none ∨ d.escape = .opened) ∧ d' = ⟨d.name, c :: d.pending, .none⟩ := by
  have hplain := plain_of_isWord hc.isWord
  simp only [isPlain, Bool.and_eq_true, Bool.not_eq_true', decide_eq_true_eq, and_assoc] at hplain
  obtain ⟨hescape, hcontrol, hblank⟩ := hplain
  obtain ⟨name, pending, escape⟩ := d
  cases escape <;>
    simp [Draft.step, hc.ne_dot, hescape, hcontrol, hblank, hc.not_numeric, eq_comm]

theorem Draft.Alike.label (alike : d.Alike e) {m : Name}
    (h : readLabel d.pending.reverse >>= d.name.push = .ok m) :
    ∃ m', readLabel e.pending.reverse >>= e.name.push = .ok m' ∧ m.Same m' := by
  obtain ⟨l, hl, hm⟩ := bind_eq_ok.mp h
  obtain ⟨l', hl', hlabel⟩ := readLabel_letters (List.forall₂_reverse_iff.mpr alike.pending) hl
  obtain ⟨m', hm', hsame⟩ := push_same alike.name hlabel hm
  exact ⟨m', bind_eq_ok.mpr ⟨l', hl', hm'⟩, hsame⟩

/-- But for a dot that ends a label, what a character does hangs on the escape alone. -/
theorem Draft.step_eq_map (h : d.escape ≠ .none ∨ c ≠ '.') : d.step c =
    (step ⟨root, [], d.escape⟩ c).map fun e => ⟨d.name, e.pending ++ d.pending, e.escape⟩ := by
  obtain ⟨name, pending, escape⟩ := d
  unfold step
  cases escape with
  | none =>
    dsimp only
    rw [if_neg (h.resolve_left (absurd rfl)), if_neg (h.resolve_left (absurd rfl))]
    split
    · rfl
    · split <;> rfl
  | _ =>
    dsimp only
    split
    · cases octal c <;> rfl
    · rfl

theorem Draft.Alike.step (alike : d.Alike e) (hc : SameLetter c c') (h : d.step c = .ok d') :
    ∃ e', e.step c' = .ok e' ∧ d'.Alike e' := by
  rcases hc.eq_or with rfl | ⟨hletter, hletter', -⟩
  -- the same character: only a dot that ends a label looks at what has been read
  · by_cases hdot : d.escape = .none ∧ c = '.'
    · obtain ⟨name, pending, escape⟩ := d
      obtain ⟨name', pending', escape'⟩ := e
      obtain ⟨rfl, rfl⟩ := hdot
      obtain rfl : .none = escape' := alike.escape
      rw [step_dot] at h
      obtain ⟨m, hm, hd⟩ := bind_eq_ok.mp h
      obtain ⟨m', hm', hsame⟩ := alike.label hm
      cases hd
      exact ⟨⟨m', [], .none⟩, by rw [step_dot, hm']; rfl, hsame, .nil, rfl⟩
    · rw [not_and_or] at hdot
      rw [step_eq_map hdot] at h
      rw [step_eq_map (alike.escape ▸ hdot), ← alike.escape]
      generalize Draft.step ⟨root, [], d.escape⟩ c = r at h ⊢
      cases r with
      | error cause => cases h
      | ok e₀ =>
        cases h
        have hown : List.Forall₂ SameLetter e₀.pending e₀.pending :=
          List.forall₂_same.mpr fun _ _ => rfl
        exact ⟨_, rfl, alike.name, List.rel_append hown alike.pending, rfl⟩
  · obtain ⟨hescape, rfl⟩ := (step_letter hletter).mp h
    rw [alike.escape] at hescape
    exact ⟨_, (step_letter hletter').mpr ⟨hescape, rfl⟩, alike.name, .cons hc alike.pending, rfl⟩

theorem Draft.Alike.foldlM (h : List.Forall₂ SameLetter s t) (alike : d.Alike e)
    (hd : s.foldlM Draft.step d = .ok d') : ∃ e', t.foldlM Draft.step e = .ok e' ∧ d'.Alike e' := by
  induction h generalizing d e with
  | nil =>
    cases hd
    exact ⟨e, rfl, alike⟩
  | cons hc _ ih =>
    rw [List.foldlM_cons] at hd
    obtain ⟨middle, hstep, hrest⟩ := bind_eq_ok.mp hd
    obtain ⟨middle', hstep', halike⟩ := alike.step hc hstep
    obtain ⟨e', he', hend⟩ := ih halike hrest
    exact ⟨e', by rw [List.foldlM_cons, hstep']; exact he', hend⟩

theorem Draft.Alike.finish (alike : d.Alike e) {empty : Bool} (h : d.finish empty = .ok n) :
    ∃ m, e.finish empty = .ok m ∧ n.Same m := by
  unfold Draft.finish at h ⊢
  have hnil : d.pending = [] ↔ e.pending = [] := by
    rw [← List.length_eq_zero_iff, ← List.length_eq_zero_iff, alike.pending.length_eq]
  by_cases hd : d.pending = []
  · rw [if_pos hd] at h
    rw [if_pos (hnil.mp hd)]
    cases h
    exact ⟨_, rfl, alike.name⟩
  · rw [if_neg hd] at h
    rw [if_neg (mt hnil.mpr hd)]
    exact alike.label h

theorem parseChars_letters (h : List.Forall₂ SameLetter s t) (hn : parseChars s = .ok n) :
    ∃ m, parseChars t = .ok m ∧ n.Same m := by
  have hdot : s = ['.'] ↔ t = ['.'] := by
    constructor
    · rintro rfl
      obtain ⟨c, rest, hc, hrest, rfl⟩ := List.forall₂_cons_left_iff.mp h
      rw [List.forall₂_nil_left_iff.mp hrest, hc.eq_dot rfl]
    · rintro rfl
      obtain ⟨c, rest, hc, hrest, rfl⟩ := List.forall₂_cons_right_iff.mp h
      rw [List.forall₂_nil_right_iff.mp hrest, SameLetter.eq_dot hc.symm rfl]
  unfold parseChars at hn ⊢
  by_cases hs : s = ['.']
  · rw [if_pos hs] at hn
    rw [if_pos (hdot.mp hs)]
    exact ⟨n, hn, .refl n⟩
  · rw [if_neg hs] at hn
    rw [if_neg (mt hdot.mpr hs)]
    obtain ⟨d, hd, hfinish⟩ := bind_eq_ok.mp hn
    obtain ⟨e, he, alike⟩ := Draft.Alike.foldlM h ⟨.refl _, .nil, rfl⟩ hd
    obtain ⟨m, hm, hsame⟩ := alike.finish hfinish
    have hempty : s.isEmpty = t.isEmpty := by
      cases h <;> rfl
    exact ⟨m, bind_eq_ok.mpr ⟨e, he, hempty ▸ hm⟩, hsame⟩

/-! ### A final dot -/

theorem getLast?_splitDots (hs : s ≠ []) (hlast : s.getLast? ≠ some '.') :
    (splitDots s).getLast? ≠ some [] := by
  induction s with
  | nil => exact absurd rfl hs
  | cons c s ih =>
    by_cases hnil : s = []
    · subst hnil
      have hc : c ≠ '.' := by simpa using hlast
      rw [splitDots_cons hc]
      simp [splitDots]
    · rw [List.getLast?_cons_of_ne_nil hnil] at hlast
      have hrest := ih hnil hlast
      by_cases hc : c = '.'
      · rwa [hc, splitDots_dot, List.getLast?_cons_of_ne_nil (splitDots_ne_nil s)]
      · rw [splitDots_cons hc]
        cases h : splitDots s with
        | nil => exact absurd h (splitDots_ne_nil s)
        | cons first rest =>
          rw [h] at hrest
          cases rest with
          | nil => simp
          | cons second rest => simpa using hrest

/-- A final dot marks the name that the text without it is. -/
theorem parseChars_append_dot (hs : '\\' ∉ s) (hne : s ≠ []) (hlast : s.getLast? ≠ some '.') :
    parseChars (s ++ ['.']) = .ok n ↔ ∃ m, parseChars s = .ok m ∧ n = m.toAbsolute := by
  have hdot : s ≠ ['.'] := by
    rintro rfl
    exact hlast rfl
  have hdots : s ++ ['.'] ≠ ['.'] := by simpa using hne
  have hassemble : assemble ⟨[], false, wireSize_nil_le⟩ (splitDots (s ++ ['.'])) =
      (assemble ⟨[], false, wireSize_nil_le⟩ (splitDots s)).map toAbsolute := by
    have hsplit : splitDots (s ++ ['.']) = splitDots s ++ [[]] := splitDots_append_dots s 1
    rw [hsplit, assemble, assemble, if_pos List.getLast?_concat, List.dropLast_concat,
      if_neg (getLast?_splitDots hne hlast)]
  have hplain : (∀ c ∈ s ++ ['.'], isPlain c = true) ↔ ∀ c ∈ s, isPlain c = true := by
    rw [List.forall_mem_append, List.forall_mem_singleton, and_iff_left (by decide)]
  rw [parseChars_eq_ok_iff (by simpa using hs) hdots (by simp), hassemble, hplain]
  simp only [parseChars_eq_ok_iff hs hdot hne, and_assoc, exists_and_left]
  refine and_congr_right fun _ => ?_
  cases assemble ⟨[], false, wireSize_nil_le⟩ (splitDots s) <;>
    simp [Except.map, eq_comm]

/-! ### Zones -/

/-- Both texts are zones, and the same one. -/
def SameZone (s t : String) : Prop :=
  ∃ n m, readZone s = .ok n ∧ readZone t = .ok m ∧ n.Same m

theorem SameZone.symm {s t : String} (h : SameZone s t) : SameZone t s := by
  obtain ⟨n, m, hn, hm, hsame⟩ := h
  exact ⟨m, n, hm, hn, hsame.symm⟩

/-- The second text is the first with a final dot; escapes are left aside. -/
structure Dotted (s t : String) : Prop where
  escape : '\\' ∉ s.toList
  last : s.toList.getLast? ≠ some '.'
  toList : t.toList = s.toList ++ ['.']

/-- The texts differ in the case of letters, or in a final dot. -/
inductive Respelled (s t : String) : Prop
  | letters (h : s.toList.map Char.toLower = t.toList.map Char.toLower)
  | dotted (h : Dotted s t)
  | undotted (h : Dotted t s)

theorem readZone_eq_ok_iff {s : String} {n : Name} :
    readZone s = .ok n ↔ ∃ m, parseChars s.toList = .ok m ∧ n = m.toAbsolute := by
  unfold readZone parse
  cases parseChars s.toList <;> simp [eq_comm]

theorem Dotted.readZone_eq_ok_iff {s t : String} (h : Dotted s t) {n : Name} :
    readZone s = .ok n ↔ readZone t = .ok n := by
  rw [Name.readZone_eq_ok_iff, Name.readZone_eq_ok_iff, h.toList]
  by_cases hne : s.toList = []
  · have hroot : parseChars [] = .ok ⟨[], false, wireSize_nil_le⟩ := rfl
    rw [hne, hroot]
    simp [parseChars, root, toAbsolute]
  · simp only [parseChars_append_dot h.escape hne h.last]
    constructor
    · rintro ⟨m, hm, rfl⟩
      exact ⟨m.toAbsolute, ⟨m, hm, rfl⟩, rfl⟩
    · rintro ⟨_, ⟨m, hm, rfl⟩, rfl⟩
      exact ⟨m, hm, rfl⟩

theorem Respelled.sameZone {s t : String} (h : Respelled s t) {n : Name} (hn : readZone s = .ok n) :
    SameZone s t := by
  cases h with
  | letters h =>
    obtain ⟨m, hm, rfl⟩ := Name.readZone_eq_ok_iff.mp hn
    have hletters : List.Forall₂ SameLetter s.toList t.toList := by
      rwa [← List.forall₂_eq_eq_eq, List.forall₂_map_left_iff, List.forall₂_map_right_iff] at h
    obtain ⟨m', hm', hsame⟩ := parseChars_letters hletters hm
    exact ⟨_, _, hn, Name.readZone_eq_ok_iff.mpr ⟨m', hm', rfl⟩, hsame⟩
  | dotted h => exact ⟨n, n, hn, h.readZone_eq_ok_iff.mp hn, .refl n⟩
  | undotted h => exact ⟨n, n, hn, h.readZone_eq_ok_iff.mpr hn, .refl n⟩

end Name

end DnsFanout
