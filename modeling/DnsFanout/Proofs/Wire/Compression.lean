import DnsFanout.Message.Decoder
import DnsFanout.Message.Encoder

/-! Names in the octets of a message. A pointer stands for an ending that was written out
before the name that holds it, and is read as that ending whatever follows. -/

namespace DnsFanout

theorem Label.ofBytes?_bytes (l : Label) : Label.ofBytes? l.bytes = some l := by
  rw [Label.ofBytes?, dif_pos ⟨l.ne_nil, l.length_le⟩]

theorem Label.length_pos (l : Label) : 0 < l.bytes.length :=
  List.length_pos_iff.mpr l.ne_nil

theorem Label.toNat_length (l : Label) : l.bytes.length.toUInt8.toNat = l.bytes.length := by
  have := l.length_le
  simp only [Nat.toUInt8_eq, UInt8.toNat_ofNat']
  omega

namespace Cursor

variable {message : Bytes} {start position : Nat} {limit : Option Nat}

theorem any_le_eq_false (h : ∀ l ∈ limit, position < l) :
    limit.any (· ≤ position) = false := by
  cases limit with
  | none => rfl
  | some l => simpa using h l rfl

theorem labels_end (more : Bytes) (hlimit : ∀ l ∈ limit, position < l) :
    labels message start limit ⟨position, 0 :: more⟩ = some ([], ⟨position + 1, more⟩) := by
  rw [labels.eq_def]
  simp [any_le_eq_false hlimit]

theorem labels_label {l : Label} {ls : List Label} {more : Bytes} {c : Cursor}
    (hlimit : ∀ l ∈ limit, position < l)
    (h : labels message start limit ⟨position + l.wireSize, more⟩ = some (ls, c)) :
    labels message start limit ⟨position, l.wire ++ more⟩ = some (l :: ls, c) := by
  have hpos := l.length_pos
  have hle := l.length_le
  have hzero : l.bytes.length.toUInt8 ≠ 0 := by
    rw [Ne, ← UInt8.toNat_inj, l.toNat_length]
    exact Nat.ne_of_gt hpos
  have hsmall : l.bytes.length.toUInt8 < 64 := by
    rw [UInt8.lt_iff_toNat_lt, l.toNat_length]
    exact Nat.lt_succ_of_le hle
  have hlong : ¬(l.bytes ++ more).length < l.bytes.length := by simp
  rw [Label.wire, List.cons_append, labels.eq_def]
  dsimp only
  rw [any_le_eq_false hlimit]
  simp only [Bool.false_eq_true, if_false, hzero, hsmall, if_true, l.toNat_length, hlong,
    List.take_left, List.drop_left, l.ofBytes?_bytes]
  have hnext : position + 1 + l.bytes.length = position + l.wireSize := by
    rw [Label.wireSize, Nat.add_assoc, Nat.add_comm 1]
  simp [hnext, h]

theorem labels_pointer {place : Nat} {ls : List Label} {more : Bytes} {c : Cursor}
    (hlimit : ∀ l ∈ limit, position < l) (hreach : place < 0x4000) (hplace : place < start)
    (h : labels message place (some start) ⟨place, message.drop place⟩ = some (ls, c)) :
    labels message start limit ⟨position, DnsFanout.word16 (0xC000 + place) ++ more⟩ =
      some (ls, ⟨position + 2, more⟩) := by
  have hhigh : ((0xC000 + place) / 256).toUInt8.toNat = 192 + place / 256 := by
    simp only [Nat.toUInt8_eq, UInt8.toNat_ofNat']
    omega
  have hlow : (0xC000 + place).toUInt8.toNat = place % 256 := by
    simp only [Nat.toUInt8_eq, UInt8.toNat_ofNat']
    omega
  have hzero : ((0xC000 + place) / 256).toUInt8 ≠ 0 := by
    rw [Ne, ← UInt8.toNat_inj, hhigh]
    simp
  have hlabel : ¬((0xC000 + place) / 256).toUInt8 < 64 := by
    rw [UInt8.lt_iff_toNat_lt, hhigh]
    simp
    omega
  have hother : ¬((0xC000 + place) / 256).toUInt8 < 192 := by
    rw [UInt8.lt_iff_toNat_lt, hhigh]
    simp
  have htarget : (192 + place / 256 - 192) * 256 + place % 256 = place := by omega
  rw [DnsFanout.word16, List.cons_append, List.cons_append, List.nil_append, labels.eq_def]
  dsimp only
  rw [any_le_eq_false hlimit]
  simp only [Bool.false_eq_true, if_false, hzero, hlabel, hother, hhigh, hlow, htarget, hplace,
    if_true, h]
  rfl

end Cursor

/-- The labels are read from the place in what was written, whatever follows, and without
going on beyond it. -/
structure Spells (written : Bytes) (labels : List Label) (place : Nat) : Prop where
  place_lt : place < written.length
  reach : place < 0x4000
  read : ∀ more limit, written.length ≤ limit → ∃ c,
    Cursor.labels (written ++ more) place (some limit) ⟨place, (written ++ more).drop place⟩ =
      some (labels, c)

theorem Spells.append {written : Bytes} {labels : List Label} {place : Nat}
    (h : Spells written labels place) (bytes : Bytes) :
    Spells (written ++ bytes) labels place where
  place_lt := by
    have := h.place_lt
    rw [List.length_append]
    omega
  reach := h.reach
  read more limit hlimit := by
    rw [List.length_append] at hlimit
    have hread := h.read (bytes ++ more) limit (by omega)
    rwa [← List.append_assoc] at hread

/-- What the encoder knows is true of the octets before it. -/
structure Written.Matches (w : Written) (front : Bytes) : Prop where
  offset : w.offset = front.length
  le_max : front.length ≤ Emit.maxSize
  ending : ∀ e ∈ w.endings, Spells front e.1 e.2

namespace Emit

theorem mem_of_lookup {ls : List Label} {place : Nat} {endings : List (List Label × Nat)}
    (h : endings.lookup ls = some place) : (ls, place) ∈ endings := by
  obtain ⟨before, after, rfl, -⟩ := List.lookup_eq_some_iff.mp h
  simp

/-- The last labels of a name, written after `front` and `begun`, which is the name up to
there. They are read as they were, and whatever ending is new with them is spelled where it
begins. -/
structure Part (front begun : Bytes) (labels : List Label) (w : Written) (bytes : Bytes)
    (w' : Written) : Prop where
  offset : w'.offset = w.offset + bytes.length
  read : ∀ message more start limit, message = front ++ begun ++ bytes ++ more →
    front.length ≤ start → (∀ l ∈ limit, w.offset + bytes.length ≤ l) →
    Cursor.labels message start limit ⟨w.offset, bytes ++ more⟩ =
      some (labels, ⟨w.offset + bytes.length, more⟩)
  ending : ∀ e ∈ w'.endings, e ∈ w.endings ∨ Spells (front ++ begun ++ bytes) e.1 e.2

namespace Part

variable {front begun bytes : Bytes} {w w' : Written}

theorem last : Part front begun [] w [0] { w with offset := w.offset + 1 } where
  offset := rfl
  read _ more _ _ _ _ hlimit := Cursor.labels_end more hlimit
  ending _ he := .inl he

theorem pointer {ls : List Label} {place : Nat} (h : Spells front ls place) :
    Part front begun ls w (word16 (0xC000 + place)) { w with offset := w.offset + 2 } where
  offset := rfl
  read message more start limit hmessage hstart hlimit := by
    obtain ⟨c, hread⟩ := h.read (begun ++ word16 (0xC000 + place) ++ more) start hstart
    have hsame : front ++ (begun ++ word16 (0xC000 + place) ++ more) = message := by
      simp only [hmessage, List.append_assoc]
    rw [hsame] at hread
    refine Cursor.labels_pointer (fun l hl => ?_) h.reach
      (Nat.lt_of_lt_of_le h.place_lt hstart) hread
    have := hlimit l hl
    rw [length_word16] at this
    omega
  ending _ he := .inl he

variable {l : Label} {ls : List Label} {known : List (List Label × Nat)}

theorem read_cons (h : Part front (begun ++ l.wire) ls ⟨w.offset + l.wireSize, known⟩ bytes w')
    (message more : Bytes) (start : Nat) (limit : Option Nat)
    (hmessage : message = front ++ begun ++ (l.wire ++ bytes) ++ more)
    (hstart : front.length ≤ start)
    (hlimit : ∀ b ∈ limit, w.offset + (l.wire ++ bytes).length ≤ b) :
    Cursor.labels message start limit ⟨w.offset, l.wire ++ bytes ++ more⟩ =
      some (l :: ls, ⟨w.offset + (l.wire ++ bytes).length, more⟩) := by
  simp only [List.length_append, Label.length_wire, ← Nat.add_assoc] at hlimit ⊢
  rw [List.append_assoc]
  refine Cursor.labels_label (fun b hb => ?_) (h.read message more start limit ?_ hstart hlimit)
  · have := hlimit b hb
    simp only [Label.wireSize] at this
    omega
  · simp only [hmessage, List.append_assoc]

theorem cons (h : Part front (begun ++ l.wire) ls ⟨w.offset + l.wireSize, known⟩ bytes w')
    (hoffset : w.offset = (front ++ begun).length)
    (hknown : ∀ e ∈ known, e ∈ w.endings ∨ e = (l :: ls, w.offset) ∧ w.offset < 0x4000) :
    Part front begun (l :: ls) w (l.wire ++ bytes) w' where
  offset := by
    rw [h.offset, List.length_append, Label.length_wire, Nat.add_assoc]
  read := h.read_cons
  ending e he := by
    rcases h.ending e he with he | hspells
    · refine (hknown e he).imp_right ?_
      rintro ⟨rfl, hreach⟩
      refine ⟨?_, hreach, fun more limit hlimit => ?_⟩
      · simp only [hoffset, List.length_append, Label.length_wire, Label.wireSize]
        omega
      · -- the name is read from its own beginning, so that its pointer leads before it
        have hread := h.read_cons (front ++ begun ++ (l.wire ++ bytes) ++ more) more w.offset
          (some limit) rfl (by simp [hoffset]) fun b hb => ?_
        · refine ⟨_, Eq.trans ?_ hread⟩
          simp only [hoffset, List.append_assoc (front ++ begun), List.drop_left]
        · obtain rfl := Option.mem_some_iff.mp hb
          rwa [hoffset, ← List.length_append]
    · refine .inr ?_
      simpa only [List.append_assoc] using hspells

end Part

/-- Endings as long as the labels or shorter are spelled in `front`; longer ones may be those
of the name itself, which is not whole yet. -/
theorem part_compress {reach : Bool} {front begun : Bytes} {ls : List Label} {w : Written}
    (hoffset : w.offset = (front ++ begun).length)
    (hreach : reach = true → w.offset + (ls.flatMap Label.wire).length < 0x3FFF)
    (hknown : ∀ key place, key.length ≤ ls.length → w.endings.lookup key = some place →
      Spells front key place) :
    Part front begun ls w (compress reach ls w).1 (compress reach ls w).2 := by
  induction ls generalizing w begun with
  | nil => exact Part.last
  | cons l rest ih =>
    cases hlook : w.endings.lookup (l :: rest) with
    | some place =>
      rw [compress, hlook]
      exact Part.pointer (hknown _ _ (Nat.le_refl _) hlook)
    | none =>
      let known := if reach then (l :: rest, w.offset) :: w.endings else w.endings
      have hpart : Part front (begun ++ l.wire) rest ⟨w.offset + l.wireSize, known⟩
          (compress reach rest ⟨w.offset + l.wireSize, known⟩).1
          (compress reach rest ⟨w.offset + l.wireSize, known⟩).2 := by
        refine ih ?offset (fun h => ?near) fun key place hkey hplace => ?found
        case offset =>
          simp only [hoffset, List.length_append, Label.length_wire, Nat.add_assoc]
        case near =>
          have := hreach h
          simp only [List.flatMap_cons, List.length_append, Label.length_wire] at this
          dsimp only
          omega
        case found =>
          refine hknown key place (Nat.le_succ_of_le hkey) ?_
          have hne : (key == l :: rest) = false := by
            rw [beq_eq_false_iff_ne]
            rintro rfl
            exact absurd hkey (Nat.not_succ_le_self _)
          cases reach with
          | false => exact hplace
          | true => simpa only [known, if_true, List.lookup_cons, hne] using hplace
      rw [compress, hlook]
      refine hpart.cons hoffset fun e he => ?_
      cases reach with
      | false => exact .inl he
      | true =>
        rcases List.mem_cons.mp he with rfl | he
        · have := hreach rfl
          exact .inr ⟨rfl, by omega⟩
        · exact .inl he

theorem compress_ne_nil (reach : Bool) (ls : List Label) (w : Written) :
    (compress reach ls w).1 ≠ [] := by
  cases ls with
  | nil => simp [compress]
  | cons l rest =>
    rw [compress]
    split <;> simp [word16, Label.wire]

end Emit

end DnsFanout
