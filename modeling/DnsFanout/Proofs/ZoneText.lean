import DnsFanout.Admission
import DnsFanout.Proofs.Results
import DnsFanout.Settings.Check
import Mathlib.Algebra.GroupWithZero.Nat

/-! Two judges of a zone in the settings. The check looks at the sizes of its labels and passes
over all dots at its end; the reader of names looks at each character and takes one dot there.
A zone that passes the check is a name exactly if the reader has nothing against it either. -/

namespace DnsFanout

open Text

/-! ### Dots -/

theorem splitDots_dot (s : List Char) : splitDots ('.' :: s) = [] :: splitDots s := by
  simp [splitDots, List.splitOnP_cons_eq_if_modifyHead]

theorem splitDots_cons {c : Char} (hc : c ≠ '.') (s : List Char) :
    splitDots (c :: s) = (splitDots s).modifyHead (c :: ·) := by
  simp [splitDots, List.splitOnP_cons_eq_if_modifyHead, hc]

theorem splitDots_ne_nil (s : List Char) : splitDots s ≠ [] := List.splitOnP_ne_nil _ s

theorem splitDots_append_dots (s : List Char) (k : Nat) :
    splitDots (s ++ List.replicate k '.') = splitDots s ++ List.replicate k [] := by
  induction s with
  | nil =>
    induction k with
    | zero => rfl
    | succ k ih =>
      rw [List.nil_append] at ih ⊢
      rw [List.replicate_succ, splitDots_dot, ih, List.replicate_succ]
      rfl
  | cons c s ih =>
    rw [List.cons_append]
    by_cases hc : c = '.'
    · rw [hc, splitDots_dot, splitDots_dot, ih]
      rfl
    · rw [splitDots_cons hc, splitDots_cons hc, ih]
      cases h : splitDots s with
      | nil => exact absurd h (splitDots_ne_nil s)
      | cons l rest => rfl

theorem mem_splitDots {c : Char} {s : List Char} (hmem : c ∈ s) (hc : c ≠ '.') :
    ∃ l ∈ splitDots s, c ∈ l := by
  induction s with
  | nil => cases hmem
  | cons d s ih =>
    by_cases hd : d = '.'
    · obtain ⟨l, hl, hcl⟩ := ih ((List.mem_cons.mp hmem).resolve_left fun h => hc (h.trans hd))
      exact ⟨l, by simp [hd, splitDots_dot, hl], hcl⟩
    · rw [splitDots_cons hd]
      cases h : splitDots s with
      | nil => exact absurd h (splitDots_ne_nil s)
      | cons first rest =>
        rw [List.modifyHead_cons]
        rcases List.mem_cons.mp hmem with rfl | hmem
        · exact ⟨c :: first, List.mem_cons_self, List.mem_cons_self⟩
        · obtain ⟨l, hl, hcl⟩ := ih hmem
          rw [h] at hl
          rcases List.mem_cons.mp hl with rfl | hl
          · exact ⟨d :: l, List.mem_cons_self, List.mem_cons_of_mem d hcl⟩
          · exact ⟨l, List.mem_cons_of_mem _ hl, hcl⟩

theorem sum_splitDots (s : List Char) :
    ((splitDots s).map fun l => l.length + 1).sum = s.length + 1 := by
  induction s with
  | nil => rfl
  | cons c s ih =>
    by_cases hc : c = '.'
    · simp only [hc, splitDots_dot, List.map_cons, List.sum_cons, ih, List.length_cons,
        List.length_nil]
      omega
    · rw [splitDots_cons hc]
      cases h : splitDots s with
      | nil => exact absurd h (splitDots_ne_nil s)
      | cons first rest =>
        rw [h] at ih
        simp only [List.modifyHead_cons, List.map_cons, List.sum_cons, List.length_cons] at ih ⊢
        omega

theorem eq_trimDots_append (s : List Char) :
    ∃ k, s = trimDots s ++ List.replicate k '.' := by
  refine ⟨(s.reverse.takeWhile (· = '.')).length, ?_⟩
  have hdots : s.reverse.takeWhile (· = '.') =
      List.replicate (s.reverse.takeWhile (· = '.')).length '.' := by
    refine List.eq_replicate_iff.mpr ⟨rfl, fun c hc => ?_⟩
    have hall : (s.reverse.takeWhile (· = '.')).all (· = '.') = true := List.all_takeWhile
    simpa using List.all_eq_true.mp hall c hc
  have hsplit := congrArg List.reverse
    (List.takeWhile_append_dropWhile (p := (· = '.')) (l := s.reverse))
  rw [List.reverse_append, List.reverse_reverse, hdots, List.reverse_replicate] at hsplit
  exact hsplit.symm

theorem length_le_byteCount (s : List Char) : s.length ≤ byteCount s := by
  induction s with
  | nil => exact Nat.le_refl _
  | cons c s ih =>
    have := c.utf8Size_pos
    simp only [byteCount, List.foldr_cons, List.length_cons] at ih ⊢
    omega

namespace Name

/-! ### Labels -/

/-- The characters make a label, its size aside. -/
def isSpelled : List Char → Bool
  | [] => false
  | c :: rest => mayLead c && rest.all mayFollow

theorem readLabel_eq_ok_iff {cs : List Char} {l : Label} : readLabel cs = .ok l ↔
    byteCount cs ≤ 63 ∧ isSpelled cs = true ∧ l.bytes = cs.map fun c => c.toNat.toUInt8 := by
  have hread : readLabel cs = if 63 < byteCount cs then .error (.labelTooLong (byteCount cs))
      else match
        if isSpelled cs then Label.ofBytes? (cs.map fun c => c.toNat.toUInt8) else none with
        | some l => .ok l
        | none => .error (.malformedLabel (String.ofList cs)) := by
    cases cs <;> rfl
  rw [hread]
  constructor
  · intro h
    by_cases hsize : 63 < byteCount cs
    · simp [hsize] at h
    · by_cases hspelled : isSpelled cs = true
      · simp only [hsize, if_false, hspelled, if_true] at h
        split at h
        · next l' hl =>
          cases h
          simp only [Label.ofBytes?, Option.dite_none_right_eq_some, Option.some.injEq] at hl
          obtain ⟨-, rfl⟩ := hl
          exact ⟨Nat.not_lt.mp hsize, hspelled, rfl⟩
        · cases h
      · simp [hsize, hspelled] at h
  · rintro ⟨hsize, hspelled, hbytes⟩
    have hfits : l.bytes ≠ [] ∧ l.bytes.length ≤ 63 := ⟨l.ne_nil, l.length_le⟩
    simp only [Nat.not_lt.mpr hsize, if_false, hspelled, if_true, Label.ofBytes?, ← hbytes,
      dif_pos hfits]

theorem readLabel_eq_ok {cs : List Char} {l : Label} (h : readLabel cs = .ok l) :
    byteCount cs ≤ 63 ∧ isSpelled cs = true ∧ l.wireSize = cs.length + 1 := by
  obtain ⟨hsize, hspelled, hbytes⟩ := readLabel_eq_ok_iff.mp h
  exact ⟨hsize, hspelled, by simp [Label.wireSize, hbytes]⟩

theorem exists_readLabel {cs : List Char} (hsize : byteCount cs ≤ 63)
    (hspelled : isSpelled cs = true) : ∃ l, readLabel cs = .ok l := by
  have hne : cs ≠ [] := by
    rintro rfl
    cases hspelled
  have hlength := Nat.le_trans (length_le_byteCount cs) hsize
  exact ⟨⟨cs.map fun c => c.toNat.toUInt8, by simpa using hne, by simpa using hlength⟩,
    readLabel_eq_ok_iff.mpr ⟨hsize, hspelled, rfl⟩⟩

theorem wireSize_append (ls : List Label) (l : Label) :
    wireSize (ls ++ [l]) = wireSize ls + l.wireSize := by
  induction ls with
  | nil => simp [wireSize, Nat.add_comm]
  | cons first ls ih =>
    simp only [List.cons_append, wireSize, ih]
    omega

theorem push_eq_ok_iff {n m : Name} {l : Label} :
    n.push l = .ok m ↔ m.labels = n.labels ++ [l] ∧ m.absolute = n.absolute := by
  unfold push ofLabels?
  constructor
  · intro h
    by_cases hfits : wireSize (n.labels ++ [l]) ≤ 255
    · simp only [dif_pos hfits, Except.ok.injEq] at h
      exact h ▸ ⟨rfl, rfl⟩
    · simp [hfits] at h
  · rintro ⟨hlabels, habsolute⟩
    simp only [← hlabels, ← habsolute, dif_pos m.size_le]

theorem push_eq_ok {n m : Name} {l : Label} (h : n.push l = .ok m) :
    wireSize m.labels = wireSize n.labels + l.wireSize := by
  rw [(push_eq_ok_iff.mp h).1, wireSize_append]

theorem exists_push {n : Name} {l : Label} (h : wireSize n.labels + l.wireSize ≤ 255) :
    ∃ m, n.push l = .ok m :=
  ⟨⟨n.labels ++ [l], n.absolute, by rwa [wireSize_append]⟩, push_eq_ok_iff.mpr ⟨rfl, rfl⟩⟩

def addLabels (n : Name) (ls : List (List Char)) : Except ParseError Name :=
  ls.foldlM (fun n cs => readLabel cs >>= n.push) n

theorem addLabels_isOk_iff {n : Name} {ls : List (List Char)} :
    (∃ m, n.addLabels ls = .ok m) ↔
      (∀ cs ∈ ls, byteCount cs ≤ 63 ∧ isSpelled cs = true) ∧
        wireSize n.labels + (ls.map fun cs => cs.length + 1).sum ≤ 255 := by
  induction ls generalizing n with
  | nil => simp [addLabels, pure, Except.pure, n.size_le]
  | cons cs ls ih =>
    have hstep (m : Name) : n.addLabels (cs :: ls) = .ok m ↔
        ∃ n' l, readLabel cs = .ok l ∧ n.push l = .ok n' ∧ n'.addLabels ls = .ok m := by
      simp only [addLabels, List.foldlM_cons, bind_eq_ok]
      constructor
      · rintro ⟨n', ⟨l, hl, hn'⟩, hm⟩
        exact ⟨n', l, hl, hn', hm⟩
      · rintro ⟨n', l, hl, hn', hm⟩
        exact ⟨n', ⟨l, hl, hn'⟩, hm⟩
    simp only [hstep, List.mem_cons, forall_eq_or_imp, List.map_cons, List.sum_cons]
    constructor
    · rintro ⟨m, n', l, hl, hn', hm⟩
      obtain ⟨hsize, hspelled, hlength⟩ := readLabel_eq_ok hl
      obtain ⟨hrest, htotal⟩ := ih.mp ⟨m, hm⟩
      rw [push_eq_ok hn', hlength] at htotal
      exact ⟨⟨⟨hsize, hspelled⟩, hrest⟩, by omega⟩
    · rintro ⟨⟨⟨hsize, hspelled⟩, hrest⟩, htotal⟩
      obtain ⟨l, hl⟩ := exists_readLabel hsize hspelled
      have hlength := (readLabel_eq_ok hl).2.2
      obtain ⟨n', hn'⟩ := exists_push (n := n) (l := l) (by omega)
      obtain ⟨m, hm⟩ := (ih (n := n')).mpr ⟨hrest, by rw [push_eq_ok hn', hlength]; omega⟩
      exact ⟨m, n', l, hl, hn', hm⟩

/-! ### The reader -/

/-- A character that the reader takes as it is, or as a dot. -/
def isPlain (c : Char) : Bool := c ≠ '\\' && !isControl c && !isBlank c

/-- The labels between the dots make the name; an empty one at the end is the final dot. -/
def assemble (n : Name) (ls : List (List Char)) : Except ParseError Name :=
  if ls.getLast? = some [] then (n.addLabels ls.dropLast).map toAbsolute else n.addLabels ls

theorem assemble_cons (n : Name) (cs : List Char) {ls : List (List Char)} (hls : ls ≠ []) :
    n.assemble (cs :: ls) = readLabel cs >>= n.push >>= (·.assemble ls) := by
  have hlast : (cs :: ls).getLast? = ls.getLast? := by
    rw [List.getLast?_cons, List.getLast?_eq_some_getLast hls]
    rfl
  unfold assemble
  rw [hlast, List.dropLast_cons_of_ne_nil hls]
  simp only [addLabels, List.foldlM_cons]
  cases readLabel cs >>= n.push with
  | error e => split <;> rfl
  | ok n' => rfl

theorem assemble_dots (n : Name) {ls : List (List Char)} (hls : ∀ l ∈ ls, l ≠ []) (k : Nat) :
    (∃ m, n.assemble (ls ++ List.replicate k []) = .ok m) ↔
      k ≤ 1 ∧ ∃ m, n.addLabels ls = .ok m := by
  match k with
  | 0 =>
    have hlast : ls.getLast? ≠ some [] := fun h => hls [] (List.mem_of_getLast? h) rfl
    simp [assemble, hlast]
  | 1 =>
    have hone : ls ++ List.replicate 1 [] = ls ++ [[]] := rfl
    simp only [hone, assemble, List.getLast?_concat, if_true, List.dropLast_concat]
    cases n.addLabels ls <;> simp [Except.map]
  | k + 2 =>
    refine iff_of_false ?_ fun h => absurd h.1 (by omega)
    have hmore : ls ++ List.replicate (k + 2) [] = (ls ++ List.replicate (k + 1) []) ++ [[]] := by
      rw [List.replicate_succ', List.append_assoc]
    simp only [hmore, assemble, List.getLast?_concat, if_true, List.dropLast_concat]
    rintro ⟨m, hm⟩
    cases hadd : n.addLabels (ls ++ List.replicate (k + 1) []) with
    | error e => simp [hadd, Except.map] at hm
    | ok m' =>
      have hspelled := (addLabels_isOk_iff.mp ⟨m', hadd⟩).1 [] (by simp)
      cases hspelled.2

theorem Draft.step_dot (n : Name) (pending : List Char) : step ⟨n, pending, .none⟩ '.' =
    readLabel pending.reverse >>= n.push >>= fun m => .ok ⟨m, [], .none⟩ := by
  unfold step
  cases readLabel pending.reverse <;> rfl

/-- Without escapes, reading is splitting at the dots. -/
theorem foldlM_step (n : Name) (pending : List Char) {s : List Char}
    (hs : ∀ c ∈ s, isPlain c = true) :
    (s.foldlM Draft.step ⟨n, pending, .none⟩ >>= (·.finish false)) =
      n.assemble ((splitDots s).modifyHead (pending.reverse ++ ·)) := by
  induction s generalizing n pending with
  | nil =>
    show Draft.finish ⟨n, pending, .none⟩ false = _
    by_cases hp : pending = []
    · simp [hp, Draft.finish, splitDots, assemble, addLabels, Except.map, pure, Except.pure,
        toAbsolute]
    · simp [hp, Draft.finish, splitDots, assemble, addLabels]
  | cons c s ih =>
    obtain ⟨hc, hs⟩ := List.forall_mem_cons.mp hs
    by_cases hdot : c = '.'
    · rw [hdot, splitDots_dot, List.modifyHead_cons, List.append_nil,
        assemble_cons _ _ (splitDots_ne_nil s), List.foldlM_cons, Draft.step_dot]
      cases readLabel pending.reverse >>= n.push with
      | error e => rfl
      | ok n' =>
        refine (ih n' [] hs).trans ?_
        show n'.assemble _ = n'.assemble (splitDots s)
        congr 1
        cases splitDots s <;> rfl
    · rw [splitDots_cons hdot]
      have hstep : Draft.step ⟨n, pending, .none⟩ c = .ok ⟨n, c :: pending, .none⟩ := by
        simp_all [Draft.step, isPlain]
      rw [List.foldlM_cons, hstep]
      refine (ih n (c :: pending) hs).trans ?_
      congr 1
      cases splitDots s <;> simp

theorem plain_of_step {c : Char} (hc : c ≠ '\\') {d d' : Draft} (hd : d.escape = .none)
    (h : d.step c = .ok d') : isPlain c = true ∧ d'.escape = .none := by
  unfold Draft.step at h
  rw [hd] at h
  dsimp only at h
  split at h
  · next hdot =>
    obtain ⟨l, -, h⟩ := bind_eq_ok.mp h
    obtain ⟨n, -, h⟩ := bind_eq_ok.mp h
    cases h
    exact ⟨hdot ▸ by decide, rfl⟩
  · split at h
    · cases h
    · next hplain =>
      cases h
      exact ⟨by simp_all [isPlain], rfl⟩

theorem plain_of_foldlM {s : List Char} (hs : '\\' ∉ s) {d d' : Draft}
    (hd : d.escape = .none) (h : s.foldlM Draft.step d = .ok d') : ∀ c ∈ s, isPlain c = true := by
  induction s generalizing d with
  | nil => exact nofun
  | cons c s ih =>
    rw [List.foldlM_cons] at h
    obtain ⟨middle, hstep, hrest⟩ := bind_eq_ok.mp h
    have hc : c ≠ '\\' := fun heq => hs (heq ▸ List.mem_cons_self)
    obtain ⟨hplain, hmiddle⟩ := plain_of_step hc hd hstep
    exact List.forall_mem_cons.mpr
      ⟨hplain, ih (fun hmem => hs (List.mem_cons_of_mem c hmem)) hmiddle hrest⟩

theorem plain_of_isWord {c : Char} (h : isWord c = true) : isPlain c = true := by
  have hrange : 48 ≤ c.toNat ∧ c.toNat ≤ 122 := by
    simp only [isWord, Bool.or_eq_true, Bool.and_eq_true, decide_eq_true_eq] at h
    rcases h with ((⟨hlo, hhi⟩ | ⟨hlo, hhi⟩) | ⟨hlo, hhi⟩) | rfl
    · exact ⟨Nat.le_trans (by decide) (show 97 ≤ c.toNat from hlo), hhi⟩
    · exact ⟨Nat.le_trans (by decide) (show 65 ≤ c.toNat from hlo),
        Nat.le_trans (show c.toNat ≤ 90 from hhi) (by decide)⟩
    · exact ⟨hlo, Nat.le_trans (show c.toNat ≤ 57 from hhi) (by decide)⟩
    · decide
  have hescape : c ≠ '\\' := by
    rintro rfl
    revert h
    decide
  have hcontrol : isControl c = false := by
    simp only [isControl]
    simp
    omega
  have hblank : isBlank c = false := by
    simp only [isBlank]
    simp
    omega
  simp [isPlain, hescape, hcontrol, hblank]

theorem plain_of_isSpelled {cs : List Char} (h : isSpelled cs = true) :
    ∀ c ∈ cs, isPlain c = true := by
  cases cs with
  | nil => cases h
  | cons first rest =>
    simp only [isSpelled, mayLead, Bool.and_eq_true, Bool.or_eq_true, decide_eq_true_eq,
      List.all_eq_true, mayFollow] at h
    obtain ⟨hfirst, hrest⟩ := h
    refine List.forall_mem_cons.mpr ⟨?_, fun c hc => ?_⟩
    · rcases hfirst with (hword | rfl) | rfl
      · exact plain_of_isWord hword
      · decide
      · decide
    · rcases hrest c hc with (hword | rfl) | rfl
      · exact plain_of_isWord hword
      · decide
      · decide

/-- The zone is spelled as a name: its labels are, and one dot may stand at the end. -/
def IsZone (zone : List Char) : Prop :=
  zone = ['.'] ∨ (splitDots (trimDots zone)).all isSpelled = true ∧
    (zone = trimDots zone ∨ zone = trimDots zone ++ ['.'])

theorem parseChars_eq_ok_iff {s : List Char} {n : Name} (hs : '\\' ∉ s) (hdot : s ≠ ['.'])
    (hne : s ≠ []) : parseChars s = .ok n ↔ (∀ c ∈ s, isPlain c = true) ∧
      assemble ⟨[], false, wireSize_nil_le⟩ (splitDots s) = .ok n := by
  have hempty : s.isEmpty = false := by simpa using hne
  have hparse : parseChars s =
      s.foldlM Draft.step ⟨⟨[], false, wireSize_nil_le⟩, [], .none⟩ >>= (·.finish false) := by
    rw [parseChars, if_neg hdot, hempty]
  have hsplit : (splitDots s).modifyHead ([].reverse ++ ·) = splitDots s := by
    cases splitDots s <;> rfl
  rw [hparse]
  constructor
  · intro hn
    obtain ⟨d, hd, -⟩ := bind_eq_ok.mp hn
    have hplain := plain_of_foldlM hs rfl hd
    rw [foldlM_step _ _ hplain, hsplit] at hn
    exact ⟨hplain, hn⟩
  · rintro ⟨hplain, hn⟩
    rwa [foldlM_step _ _ hplain, hsplit]

theorem parseChars_isOk_iff {s : List Char} (hs : '\\' ∉ s) (hdot : s ≠ ['.']) (hne : s ≠ []) :
    (∃ n, parseChars s = .ok n) ↔ (∀ c ∈ s, isPlain c = true) ∧
      ∃ n, assemble ⟨[], false, wireSize_nil_le⟩ (splitDots s) = .ok n := by
  simp only [parseChars_eq_ok_iff hs hdot hne, exists_and_left]

end Name

theorem require_eq_ok {holds : Bool} {reason : String} (h : require holds reason = .ok ()) :
    holds = true := by
  cases holds
  · cases h
  · rfl

theorem checkZone_eq_ok {zone : String} (h : checkZone zone = .ok ()) : zone.toList = ['.'] ∨
    byteCount (trimDots zone.toList) ≤ 253 ∧
      ∀ l ∈ splitDots (trimDots zone.toList), l ≠ [] ∧ byteCount l ≤ 63 := by
  unfold checkZone at h
  split at h
  · cases h
  · split at h
    · next hdot => exact .inl (by rw [hdot]; rfl)
    · obtain ⟨⟨⟩, hsize, hlabels⟩ := bind_eq_ok.mp h
      exact .inr (by simpa using And.intro (require_eq_ok hsize) (require_eq_ok hlabels))

namespace Name

variable {t : List Char} {k : Nat}

theorem addLabels_splitDots (hsize : byteCount t ≤ 253)
    (hlabels : ∀ l ∈ splitDots t, l ≠ [] ∧ byteCount l ≤ 63) :
    (∃ m, addLabels ⟨[], false, wireSize_nil_le⟩ (splitDots t) = .ok m) ↔
      (splitDots t).all isSpelled = true := by
  rw [addLabels_isOk_iff, sum_splitDots, List.all_eq_true]
  have hlength := Nat.le_trans (length_le_byteCount t) hsize
  constructor
  · exact fun h l hl => (h.1 l hl).2
  · exact fun h => ⟨fun l hl => ⟨(hlabels l hl).2, h l hl⟩, by simp only [wireSize]; omega⟩

theorem parse_append_dots (hescape : '\\' ∉ t ++ List.replicate k '.')
    (hdot : t ++ List.replicate k '.' ≠ ['.']) (hsize : byteCount t ≤ 253)
    (hlabels : ∀ l ∈ splitDots t, l ≠ [] ∧ byteCount l ≤ 63) :
    (∃ n, parseChars (t ++ List.replicate k '.') = .ok n) ↔
      k ≤ 1 ∧ (splitDots t).all isSpelled = true := by
  have hne : t ++ List.replicate k '.' ≠ [] := by
    intro hnil
    obtain ⟨rfl, -⟩ := List.append_eq_nil_iff.mp hnil
    exact (hlabels [] (by simp [splitDots])).1 rfl
  rw [parseChars_isOk_iff hescape hdot hne, splitDots_append_dots,
    assemble_dots _ fun l hl => (hlabels l hl).1, addLabels_splitDots hsize hlabels]
  refine and_iff_right_of_imp fun ⟨_, hspelled⟩ c hc => ?_
  by_cases hcdot : c = '.'
  · exact hcdot ▸ by decide
  · have hct : c ∈ t := (List.mem_append.mp hc).resolve_right fun h =>
      hcdot (List.eq_of_mem_replicate h)
    obtain ⟨l, hl, hcl⟩ := mem_splitDots hct hcdot
    exact plain_of_isSpelled (List.all_eq_true.mp hspelled l hl) c hcl

/-- The zones that pass the check and are names, of those that are written without escapes. -/
theorem readZone_isOk_iff {zone : String} (hescape : '\\' ∉ zone.toList)
    (hcheck : checkZone zone = .ok ()) :
    (∃ n, readZone zone = .ok n) ↔ IsZone zone.toList := by
  have hread : (∃ n, readZone zone = .ok n) ↔ ∃ n, parseChars zone.toList = .ok n := by
    unfold readZone parse
    cases parseChars zone.toList <;> simp
  rw [hread]
  by_cases hdot : zone.toList = ['.']
  · rw [hdot]
    exact iff_of_true ⟨_, rfl⟩ (.inl rfl)
  · obtain ⟨hsize, hlabels⟩ := (checkZone_eq_ok hcheck).resolve_left hdot
    obtain ⟨k, hk⟩ := eq_trimDots_append zone.toList
    have hdots : (zone.toList = trimDots zone.toList ∨
        zone.toList = trimDots zone.toList ++ ['.']) ↔ k ≤ 1 := by
      generalize trimDots zone.toList = t at hk
      rw [hk, List.append_right_eq_self, List.append_cancel_left_eq]
      match k with
      | 0 => simp
      | 1 => simp
      | k + 2 => simp [List.replicate_succ]
    unfold IsZone
    rw [hdots, or_iff_right hdot, and_comm]
    have hparse := parse_append_dots (k := k) (hk ▸ hescape) (hk ▸ hdot) hsize hlabels
    rwa [← hk] at hparse

end Name

end DnsFanout
