import DnsFanout.Proofs.Wire.Decoding

/-! A message that is cut short. Whatever is read from the front of some octets is read from all
of them as well, and leaves what follows; so a message that takes up all of its octets is not read
from fewer. -/

namespace DnsFanout

namespace Cursor

/-- The same place, with more octets at the end. -/
def extend (c : Cursor) (more : Bytes) : Cursor := ⟨c.position, c.rest ++ more⟩

/-- What a step reads does not change when more octets follow. -/
structure Extends {α : Type} (step : Bytes → Take α) : Prop where
  run : ∀ {message : Bytes} {c c' : Cursor} {x : α} (more : Bytes),
    step message c = some (x, c') →
      step (message ++ more) (c.extend more) = some (x, c'.extend more)

section Steps

variable {α β : Type}

theorem Extends.bind {step : Bytes → Take α} {next : α → Bytes → Take β} (h : Extends step)
    (hnext : ∀ x, Extends (next x)) :
    Extends fun message c => (step message c).bind fun x => next x.1 message x.2 := by
  refine ⟨fun more hy => ?_⟩
  obtain ⟨⟨x, middle⟩, hx, hrest⟩ := Option.bind_eq_some_iff.mp hy
  exact Option.bind_eq_some_iff.mpr ⟨_, h.run more hx, (hnext x).run more hrest⟩

theorem Extends.pure (x : α) : Extends fun _ c => some (x, c) := by
  refine ⟨fun more h => ?_⟩
  cases h
  rfl

theorem Extends.ite {p : Prop} [Decidable p] {step other : Bytes → Take α} (h : Extends step)
    (hother : Extends other) :
    Extends fun message c => if p then step message c else other message c := by
  by_cases hp : p
  · simpa only [hp, if_true] using h
  · simpa only [hp, if_false] using hother

theorem Extends.none : Extends fun _ _ => (Option.none : Option (α × Cursor)) := ⟨nofun⟩

theorem extends_octets (n : Nat) : Extends fun _ => octets n := by
  refine ⟨fun {message c c' x} more h => ?_⟩
  unfold octets at h
  split at h
  · next henough =>
    cases h
    have hmore : n ≤ (c.rest ++ more).length := by
      rw [List.length_append]
      omega
    simp only [octets, extend, hmore, if_true, List.take_append_of_le_length henough,
      List.drop_append_of_le_length henough]
  · cases h

theorem extends_word16 : Extends fun _ => word16 := by
  refine ⟨fun {message c c' x} more h => ?_⟩
  obtain ⟨position, rest⟩ := c
  match rest, h with
  | _ :: _ :: _, rfl => rfl

theorem extends_word32 : Extends fun _ => word32 := by
  refine ⟨fun {message c c' x} more h => ?_⟩
  obtain ⟨position, rest⟩ := c
  match rest, h with
  | _ :: _ :: _ :: _ :: _, rfl => rfl

/-- By the recursion of the reader. A pointer leads to octets that the front has, as nothing is
read behind its end. -/
theorem extends_labels {message : Bytes} {start : Nat} {limit : Option Nat} {c c' : Cursor}
    {ls : List Label} (more : Bytes) (h : labels message start limit c = some (ls, c')) :
    labels (message ++ more) start limit (c.extend more) = some (ls, c'.extend more) := by
  fun_induction labels message start limit c generalizing ls c' with
  | case3 start limit position rest hlimit =>
    cases h
    rw [extend, List.cons_append, labels.eq_def]
    simp only [hlimit, if_true]
    rfl
  | case5 start limit position b rest hlimit hzero hsmall henough ih =>
    simp only [bind, Option.bind_eq_some_iff] at h
    obtain ⟨l, hl, ⟨others, last⟩, hothers, heq⟩ := h
    cases heq
    have hle : b.toNat ≤ rest.length := Nat.le_of_not_lt henough
    have hmore : ¬ (rest ++ more).length < b.toNat := by
      rw [List.length_append]
      omega
    have hnext := ih hothers
    rw [extend, ← List.drop_append_of_le_length hle] at hnext
    rw [extend, List.cons_append, labels.eq_def]
    simp only [hlimit, hzero, hsmall, hmore, if_true, if_false, hnext,
      List.take_append_of_le_length hle, hl]
    rfl
  | case8 start limit position b hlimit hzero hlarge hpointer low rest target hbefore =>
    rename_i ih
    simp only [bind, Option.bind_eq_some_iff] at h
    obtain ⟨⟨others, last⟩, hothers, heq⟩ := h
    cases heq
    have hle : target ≤ message.length := Nat.le_of_not_lt fun hbehind => by
      rw [List.drop_eq_nil_of_le (Nat.le_of_lt hbehind), labels.eq_def] at hothers
      cases hothers
    have hnext := ih hothers
    rw [extend, ← List.drop_append_of_le_length hle] at hnext
    rw [extend, List.cons_append, List.cons_append, labels.eq_def]
    simp only [hlimit, hzero, hlarge, hpointer, if_false]
    rw [if_pos hbefore, hnext]
    rfl
  | _ => cases h

theorem extends_name : Extends name := by
  refine ⟨fun {message c c' n} more h => ?_⟩
  obtain ⟨⟨ls, last⟩, hlabels, hrest⟩ := Option.bind_eq_some_iff.mp h
  obtain ⟨n', hn, heq⟩ := Option.bind_eq_some_iff.mp hrest
  cases heq
  refine Option.bind_eq_some_iff.mpr ⟨_, extends_labels more hlabels, ?_⟩
  exact Option.bind_eq_some_iff.mpr ⟨n, hn, rfl⟩

-- Here and below the steps are put together first, and compared with the reader then.
theorem extends_question : Extends question := by
  have h := extends_name.bind fun n => extends_word16.bind fun type =>
    extends_word16.bind fun questionClass => .pure (⟨n, type, questionClass⟩ : Question)
  exact h

theorem extends_data (type : RecordType) (size : Nat) :
    Extends fun message => data message type size := by
  by_cases hsize : size = 0
  · subst hsize
    exact .pure RecordData.empty
  have hhost := extends_name.bind fun n => .pure (RecordData.host n)
  have hexchange := extends_word16.bind fun preference => extends_name.bind fun n =>
    .pure (RecordData.exchange preference n)
  have hauthority := extends_name.bind fun primary => extends_name.bind fun contact =>
    extends_word32.bind fun serial => extends_word32.bind fun refresh =>
    extends_word32.bind fun retry => extends_word32.bind fun expire =>
    extends_word32.bind fun minimum =>
      .pure (RecordData.authority primary contact serial refresh retry expire minimum)
  have hoctets := (extends_octets size).bind fun bytes => .pure (RecordData.octets bytes)
  cases hlayout : type.layout with
  | host =>
    simp only [data_host hsize hlayout]
    exact hhost
  | exchange =>
    simp only [data_exchange hsize hlayout]
    exact hexchange
  | authority =>
    simp only [data_authority hsize hlayout]
    exact hauthority
  | _ =>
    have hdata : ∀ message, data message type size = fun c =>
        (octets size c).bind fun x => some (RecordData.octets x.1, x.2) := by
      intro message
      funext c
      rw [data, if_neg hsize, hlayout]
      rfl
    simp only [hdata]
    exact hoctets

theorem extends_recordHead : Extends recordHead := by
  have hsized (head : RecordHead) : Extends fun _ c =>
      if c.rest.length < head.size then Option.none else some (head, c) := by
    refine ⟨fun {message c c' x} more h => ?_⟩
    split at h
    · cases h
    · next henough =>
      cases h
      have hmore : ¬ (c.extend more).rest.length < head.size := by
        rw [extend, List.length_append]
        omega
      rw [if_neg hmore]
  have h := extends_name.bind fun owner => extends_word16.bind fun type =>
    extends_word16.bind fun recordClass => extends_word32.bind fun ttl =>
    extends_word16.bind fun size => hsized ⟨owner, type, recordClass, ttl, size.toNat⟩
  exact h

theorem extends_recordBody (head : RecordHead) : Extends fun message => recordBody message head := by
  refine ⟨fun {message c c' r} more h => ?_⟩
  obtain ⟨⟨d, last⟩, hd, hrest⟩ := Option.bind_eq_some_iff.mp h
  refine Option.bind_eq_some_iff.mpr ⟨_, (extends_data head.type head.size).run more hd, ?_⟩
  change (if last.position ≠ c.position + head.size then none else _) = some (r, c'.extend more)
  dsimp only at hrest
  split at hrest
  · cases hrest
  · next hplace =>
    rw [if_neg hplace]
    split at hrest
    · next hfits =>
      cases hrest
      rw [dif_pos hfits]
      rfl
    · cases hrest

theorem extends_edns (head : RecordHead) : Extends fun _ => edns head := by
  refine ⟨fun {message c c' e} more h => ?_⟩
  unfold edns at h
  split at h
  · cases h
  · next hroot =>
    obtain ⟨⟨bytes, last⟩, hbytes, hrest⟩ := Option.bind_eq_some_iff.mp h
    obtain ⟨options, hoptions, heq⟩ := Option.bind_eq_some_iff.mp hrest
    cases heq
    have hwhole : octets head.size (c.extend more) = some (bytes, c'.extend more) :=
      @(extends_octets head.size).run message _ _ _ more hbytes
    simp only [edns, if_neg hroot]
    refine Option.bind_eq_some_iff.mpr ⟨_, hwhole, ?_⟩
    exact Option.bind_eq_some_iff.mpr ⟨options, hoptions, rfl⟩

theorem extends_repeated {item : Bytes → Take α} (h : Extends item) (n : Nat) :
    Extends fun message => repeated (item message) n := by
  induction n with
  | zero => exact .pure []
  | succ n ih =>
    have hstep := h.bind fun x => ih.bind fun xs => .pure (x :: xs)
    exact hstep

theorem extends_plainRecord : Extends plainRecord := by
  have h := extends_recordHead.bind fun head =>
    Extends.ite (p := head.type.isAdditionalOnly = true) .none (extends_recordBody head)
  exact h

theorem extends_additional (found : Option (Nat × Edns)) (n : Nat) :
    Extends fun message => additional message found n := by
  induction n generalizing found with
  | zero => exact .pure ([], found)
  | succ n ih =>
    have h := extends_recordHead.bind fun head =>
      Extends.ite (p := head.type = RecordType.opt)
        ((extends_edns head).bind fun e => .ite (p := found.isSome = true) .none (ih (some e)))
        ((extends_recordBody head).bind fun r => (ih found).bind fun x => .pure (r :: x.1, x.2))
    exact h

end Steps

end Cursor

namespace Message

theorem extends_sections (q a u d : Nat) :
    Cursor.Extends fun message => sections message q a u d := by
  have h := (Cursor.extends_repeated Cursor.extends_question q).bind fun questions =>
    (Cursor.extends_repeated Cursor.extends_plainRecord a).bind fun answers =>
    (Cursor.extends_repeated Cursor.extends_plainRecord u).bind fun authority =>
    (Cursor.extends_additional none d).bind fun x =>
      .pure (⟨questions, answers, authority, x.1, x.2⟩ : Sections)
  exact h

/-- A message is read from the octets, and takes up all of them. -/
inductive Fills (bytes : Bytes) : Prop
  | intro {rest : Bytes} {id : UInt16} {high low : UInt8} {q a u d position : Nat} {s : Sections}
    (hheader : bytes = word16 id.toNat ++ ([high, low] ++ (word16 q ++ (word16 a ++
      (word16 u ++ word16 d)))) ++ rest)
    (hsections : sections bytes (announced q) (announced a) (announced u) (announced d)
      ⟨12, rest⟩ = some (s, ⟨position, []⟩))

variable {m : Message} {bytes : Bytes} {n : Nat}

theorem fills_of_encode? (hm : m.Regular) (hbytes : m.encode? = some bytes) : Fills bytes := by
  rw [encode?_eq] at hbytes
  obtain ⟨b, hb, rfl⟩ := Option.map_eq_some_iff.mp hbytes
  obtain ⟨hq, ha, hu, hd⟩ := (holds_of_body? hm hb (m.length_header b)).count_lt
  obtain ⟨high, low, hflags, -⟩ := m.exists_flagOctets (m.truncated || !b.complete)
  have hsections := sections_wire hm hb
  rw [← announced_of_lt hq, ← announced_of_lt ha, ← announced_of_lt hu, ← announced_of_lt hd]
    at hsections
  exact .intro (by rw [header, hflags]) hsections

theorem Fills.exists_decode? (h : Fills bytes) : ∃ m, decode? bytes = some m := by
  cases h with
  | @intro _ id high low _ _ _ _ _ s hheader hsections =>
    exact ⟨ofSections id high low s, by rw [decode?_of_header hheader, hsections, Option.map_some]⟩

/-- What would be read from a front with the header would be read from all octets, and leave some
of them. -/
theorem Fills.decode?_take (h : Fills bytes) (hheader : 12 ≤ n) (hn : n < bytes.length) :
    decode? (bytes.take n) = none := by
  cases h with
  | @intro rest id high low q a u d position s hbytes hsections =>
    have hlength : bytes.length = 12 + rest.length := by
      rw [hbytes, List.length_append]
      rfl
    have hfront : bytes.take n = word16 id.toNat ++ ([high, low] ++ (word16 q ++ (word16 a ++
        (word16 u ++ word16 d)))) ++ rest.take (n - 12) := by
      rw [hbytes, List.take_append, List.take_of_length_le hheader]
      rfl
    rw [decode?_of_header hfront, Option.map_eq_none_iff]
    cases hread : sections (bytes.take n) (announced q) (announced a) (announced u) (announced d)
      ⟨12, rest.take (n - 12)⟩ with
    | none => rfl
    | some x =>
      obtain ⟨s', last⟩ := x
      have hmore : rest.take (n - 12) ++ rest.drop (n - 12) = rest := List.take_append_drop _ _
      have hwhole := (extends_sections _ _ _ _).run (rest.drop (n - 12)) hread
      rw [Cursor.extend, hmore, hfront, List.append_assoc, hmore, ← hbytes, hsections] at hwhole
      have hleft : last.rest ++ rest.drop (n - 12) = [] :=
        (congrArg (Cursor.rest ∘ Prod.snd) (Option.some.inj hwhole)).symm
      have hnone := List.drop_eq_nil_iff.mp (List.append_eq_nil_iff.mp hleft).2
      omega

end Message

end DnsFanout
