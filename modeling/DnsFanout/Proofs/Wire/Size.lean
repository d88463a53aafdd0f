import DnsFanout.Proofs.Wire.Decoding
import Mathlib.Algebra.GroupWithZero.Nat

/-! The size of a message with all its names written out. The wire form takes no more, so a
message of at most 65535 such octets fits whole. -/

namespace DnsFanout

def Question.plainSize (q : Question) : Nat := q.name.wire.length + 4

def Record.plainSize (r : Record) : Nat := r.owner.wire.length + (10 + r.data.wire.length)

def Edns.plainSize (e : Edns) : Nat := 11 + (e.options.map fun o => 4 + o.2.length).sum

/-- The octets of a message without compression. -/
def Message.plainSize (m : Message) : Nat :=
  12 + (m.questions.map Question.plainSize).sum + (m.answers.map Record.plainSize).sum +
    (m.authority.map Record.plainSize).sum + (m.additional.map Record.plainSize).sum +
    (m.edns.toList.map Edns.plainSize).sum

theorem Name.length_wire (n : Name) : n.wire.length = wireSize n.labels := by
  have hlabels (ls : List Label) : (ls.flatMap Label.wire ++ [0]).length = wireSize ls := by
    induction ls with
    | nil => rfl
    | cons l rest ih =>
      rw [List.flatMap_cons, List.append_assoc, List.length_append, ih, Label.length_wire, wireSize]
  exact hlabels n.labels

theorem Question.plainSize_le (q : Question) : q.plainSize ≤ 259 := by
  have := q.name.size_le
  rw [plainSize, Name.length_wire]
  omega

namespace Emit

/-- Where `n` octets fit the step writes, and no more than those. -/
def Within (e : Emit) (n : Nat) : Prop :=
  ∀ w, w.offset + n ≤ maxSize → ∃ out w', e w = some (out, w') ∧ w'.offset ≤ w.offset + n

theorem within_octets (bytes : Bytes) : (octets bytes).Within bytes.length :=
  fun _ hw => ⟨bytes, _, if_pos hw, Nat.le_refl _⟩

theorem Within.append {first second : Emit} {a b : Nat} (ha : first.Within a)
    (hb : second.Within b) : (first ++ second).Within (a + b) := by
  intro w hw
  obtain ⟨x, middle, hx, hmiddle⟩ := ha w (by omega)
  obtain ⟨y, last, hy, hlast⟩ := hb middle (by omega)
  refine ⟨x ++ y, last, ?_, by omega⟩
  show first.andThen second w = _
  simp [andThen, hx, hy]

theorem Within.sized {body : Emit} {n : Nat} (h : body.Within n) : (sized body).Within (2 + n) := by
  intro w hw
  obtain ⟨x, last, hx, hlast⟩ := h { w with offset := w.offset + 2 } (by dsimp only; omega)
  refine ⟨word16 x.length ++ x, last, ?_, by dsimp only at hlast; omega⟩
  have hroom : w.offset + 2 ≤ maxSize := by omega
  simp [Emit.sized, octets, hroom, hx]

theorem offset_compress_le (reach : Bool) (ls : List Label) (w : Written) :
    (compress reach ls w).2.offset ≤ w.offset + ((ls.flatMap Label.wire).length + 1) := by
  induction ls generalizing w with
  | nil => simp [compress]
  | cons l rest ih =>
    rw [compress]
    split
    · simp only [List.flatMap_cons, List.length_append, Label.length_wire, Label.wireSize]
      omega
    · have := ih ⟨w.offset + l.wireSize,
        if reach then (l :: rest, w.offset) :: w.endings else w.endings⟩
      simp only [List.flatMap_cons, List.length_append, Label.length_wire] at this ⊢
      omega

theorem within_name (n : Name) : (name n).Within n.wire.length := by
  intro w hw
  have hle := offset_compress_le (w.offset + (n.labels.flatMap Label.wire).length < 0x3FFF)
    n.labels w
  simp only [Name.wire, List.length_append, List.length_singleton] at hw ⊢
  refine ⟨(compress (w.offset + (n.labels.flatMap Label.wire).length < 0x3FFF) n.labels w).1, _,
    ?_, hle⟩
  simp only [name]
  rw [if_neg (by omega), if_neg (by omega)]

theorem within_data (d : RecordData) : (data d).Within d.wire.length := by
  cases d with
  | empty => exact within_octets []
  | octets bytes => exact within_octets bytes
  | host n => exact within_name n
  | exchange preference n =>
    rw [RecordData.wire, List.length_append]
    exact (within_octets _).append (within_name n)
  | authority primary contact serial refresh retry expire minimum =>
    simp only [RecordData.wire, List.length_append]
    exact ((((((within_name primary).append (within_name contact)).append
      (within_octets _)).append (within_octets _)).append (within_octets _)).append
      (within_octets _)).append (within_octets _)

theorem within_record (r : Record) : (record r).Within r.plainSize := by
  have h := (within_name r.owner).append <| (within_octets (word16 r.type.toNat)).append <|
    (within_octets (word16 r.recordClass.toNat)).append <|
    (within_octets (word32 r.ttl.toNat)).append (within_data r.data).sized
  simp only [record, append_assoc]
  simp only [length_word16, length_word32] at h
  have hsize : r.plainSize = r.owner.wire.length + (2 + (2 + (4 + (2 + r.data.wire.length)))) := by
    rw [Record.plainSize]
    omega
  rw [hsize]
  exact h

theorem within_question (q : Question) : (question q).Within q.plainSize :=
  ((within_name q.name).append (within_octets _)).append (within_octets _)

theorem within_questions (qs : List Question) :
    (questions qs).Within (qs.map Question.plainSize).sum := by
  induction qs with
  | nil => exact within_octets []
  | cons q qs ih =>
    rw [List.map_cons, List.sum_cons]
    exact (within_question q).append ih

/-- One question fits on the wire, whatever its name is. -/
theorem exists_questions {qs : List Question} (hone : qs.length ≤ 1) :
    ∃ bytes w, questions qs ⟨12, []⟩ = some (bytes, w) ∧ w.offset ≤ 271 := by
  have hsize : (qs.map Question.plainSize).sum ≤ 259 := by
    match qs, hone with
    | [], _ => simp
    | [q], _ => simpa using q.plainSize_le
  obtain ⟨bytes, w, hq, hw⟩ := within_questions qs ⟨12, []⟩ (by simp only [maxSize]; omega)
  exact ⟨bytes, w, hq, by dsimp only at hw; omega⟩

theorem length_optionOctets (opts : List (UInt16 × Bytes)) :
    (optionOctets opts).length = (opts.map fun o => 4 + o.2.length).sum := by
  induction opts with
  | nil => rfl
  | cons o opts ih =>
    simp only [optionOctets, List.flatMap_cons, List.length_append, length_word16, List.map_cons,
      List.sum_cons] at ih ⊢
    rw [ih]

theorem within_edns (rcode : ResponseCode) (e : Edns) : (edns rcode e).Within e.plainSize := by
  have h := (((((within_name Name.root).append (within_octets (word16 RecordType.opt.toNat))).append
    (within_octets (word16 e.payload.toNat))).append
    (within_octets [(rcode.val / 16).toUInt8, e.version])).append
    (within_octets (word16 e.flags.toNat))).append
    (within_octets (optionOctets e.options)).sized
  rw [← options_eq_octets] at h
  have hsize : e.plainSize = Name.root.wire.length + 2 + 2 + 2 + 2 +
      (2 + (optionOctets e.options).length) := by
    have hroot : Name.root.wire.length = 1 := rfl
    rw [hroot, length_optionOctets, Edns.plainSize]
    omega
  rw [hsize]
  exact h

/-- A section whose items have room is complete. -/
theorem complete_upTo {α : Type} {emit : α → Emit} {size : α → Nat}
    (h : ∀ x, (emit x).Within (size x)) {xs : List α} {w : Written}
    (hw : w.offset + (xs.map size).sum ≤ maxSize) :
    (upTo (xs.map emit) w).complete = true ∧
      (upTo (xs.map emit) w).written.offset ≤ w.offset + (xs.map size).sum := by
  induction xs generalizing w with
  | nil => exact ⟨rfl, Nat.le_refl _⟩
  | cons x xs ih =>
    rw [List.map_cons, List.sum_cons] at hw
    obtain ⟨out, w', hx, hle⟩ := h x w (by omega)
    obtain ⟨hcomplete, hoffset⟩ := ih (w := w') (by omega)
    simp only [List.map_cons, upTo, hx, List.sum_cons]
    exact ⟨hcomplete, by omega⟩

end Emit

theorem Message.fits_of_plainSize {m : Message} (h : m.plainSize ≤ Emit.maxSize) :
    m.fits = true := by
  unfold plainSize at h
  obtain ⟨questions, w, hq, hw⟩ := Emit.within_questions m.questions ⟨12, []⟩
    (by dsimp only; omega)
  dsimp only at hw
  have hanswers : w.offset + (m.answers.map Record.plainSize).sum ≤ Emit.maxSize := by omega
  obtain ⟨ha, hwa⟩ := Emit.complete_upTo Emit.within_record hanswers
  have hauthority : (Emit.upTo (m.answers.map Emit.record) w).written.offset +
      (m.authority.map Record.plainSize).sum ≤ Emit.maxSize := by omega
  obtain ⟨hu, hwu⟩ := Emit.complete_upTo Emit.within_record hauthority
  have hadditional : (Emit.upTo (m.authority.map Emit.record)
      (Emit.upTo (m.answers.map Emit.record) w).written).written.offset +
      (m.additional.map Record.plainSize).sum ≤ Emit.maxSize := by omega
  obtain ⟨hd, hwd⟩ := Emit.complete_upTo Emit.within_record hadditional
  have hextension := (Emit.complete_upTo (Emit.within_edns m.rcode)
    (Nat.le_trans (Nat.add_le_add_right hwd (m.edns.toList.map Edns.plainSize).sum)
      (by omega))).1
  simp [fits, body?, Body.complete, hq, ha, hu, hd, hextension]

end DnsFanout
