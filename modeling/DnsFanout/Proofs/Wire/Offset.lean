import DnsFanout.Proofs.Wire.Decoding

/-! The encoder counts what it writes: after a step its offset has grown by the octets of the
step. It never passes the size of a message, so no wire form is longer than that. -/

namespace DnsFanout

namespace Emit

/-- The step counts the octets that it writes, and they end within a message. -/
def Counted (e : Emit) : Prop :=
  ∀ w out w', e w = some (out, w') →
    w'.offset = w.offset + out.length ∧ w'.offset ≤ maxSize

theorem counted_octets (bytes : Bytes) : (octets bytes).Counted := by
  intro w out w' h
  obtain ⟨rfl, rfl, hroom⟩ := octets_eq_some h
  exact ⟨rfl, hroom⟩

theorem Counted.append {first second : Emit} (hfirst : first.Counted) (hsecond : second.Counted) :
    (first ++ second).Counted := by
  intro w out w' h
  obtain ⟨x, middle, y, hx, hy, rfl⟩ := append_eq_some h
  obtain ⟨hlast, hroom⟩ := hsecond _ _ _ hy
  exact ⟨by rw [hlast, (hfirst _ _ _ hx).1, List.length_append, Nat.add_assoc], hroom⟩

theorem Counted.sized {body : Emit} (hbody : body.Counted) : (sized body).Counted := by
  intro w out w' h
  obtain ⟨x, -, hx, rfl⟩ := sized_eq_some h
  obtain ⟨hlast, hroom⟩ := hbody _ _ _ hx
  exact ⟨by rw [hlast, List.length_append, length_word16, Nat.add_assoc], hroom⟩

theorem offset_compress (reach : Bool) (ls : List Label) (w : Written) :
    (compress reach ls w).2.offset = w.offset + (compress reach ls w).1.length := by
  induction ls generalizing w with
  | nil => rfl
  | cons l rest ih =>
    rw [compress]
    split
    · rfl
    · simp only [ih, List.length_append, Label.length_wire, Nat.add_assoc]

theorem counted_name (n : Name) : (name n).Counted := by
  intro w out w' h
  obtain ⟨-, hroom, hout⟩ := name_eq_some h
  have hoffset := offset_compress (w.offset + (n.labels.flatMap Label.wire).length < 0x3FFF)
    n.labels w
  rw [hout] at hoffset
  exact ⟨hoffset, hroom⟩

theorem counted_data (d : RecordData) : (data d).Counted := by
  cases d with
  | empty => exact counted_octets []
  | octets bytes => exact counted_octets bytes
  | host n => exact counted_name n
  | exchange preference n => exact (counted_octets _).append (counted_name n)
  | authority primary contact serial refresh retry expire minimum =>
    exact ((((((counted_name primary).append (counted_name contact)).append
      (counted_octets _)).append (counted_octets _)).append (counted_octets _)).append
      (counted_octets _)).append (counted_octets _)

theorem counted_record (r : Record) : (record r).Counted :=
  ((((counted_name r.owner).append (counted_octets _)).append (counted_octets _)).append
    (counted_octets _)).append (counted_data r.data).sized

theorem counted_question (q : Question) : (question q).Counted :=
  ((counted_name q.name).append (counted_octets _)).append (counted_octets _)

theorem counted_questions (qs : List Question) : (questions qs).Counted := by
  induction qs with
  | nil => exact counted_octets []
  | cons q qs ih => exact (counted_question q).append ih

theorem counted_options (opts : List (UInt16 × Bytes)) : (options opts).Counted := by
  rw [options_eq_octets]
  exact counted_octets _

theorem counted_edns (rcode : ResponseCode) (e : Edns) : (edns rcode e).Counted :=
  (((((counted_name Name.root).append (counted_octets _)).append (counted_octets _)).append
    (counted_octets _)).append (counted_octets _)).append (counted_options e.options).sized

/-- A section counts what of it fits. -/
theorem counted_upTo {α : Type} {emit : α → Emit} (h : ∀ x, (emit x).Counted) (xs : List α)
    {w : Written} (hw : w.offset ≤ maxSize) :
    (upTo (xs.map emit) w).written.offset = w.offset + (upTo (xs.map emit) w).bytes.length ∧
      (upTo (xs.map emit) w).written.offset ≤ maxSize := by
  induction xs generalizing w with
  | nil => exact ⟨rfl, hw⟩
  | cons x xs ih =>
    rw [List.map_cons, upTo]
    split
    · exact ⟨rfl, hw⟩
    · next out w' hx =>
      obtain ⟨hoffset, hroom⟩ := h x _ _ _ hx
      obtain ⟨hlast, hmore⟩ := ih hroom
      exact ⟨by rw [hlast, hoffset, List.length_append, Nat.add_assoc], hmore⟩

end Emit

namespace Message

theorem length_body {m : Message} {b : Body} (h : m.body? = some b) :
    12 + b.bytes.length ≤ Emit.maxSize := by
  obtain ⟨⟨questions, w⟩, hquestions, hb⟩ := Option.bind_eq_some_iff.mp h
  cases hb
  obtain ⟨hw, hroom⟩ := Emit.counted_questions m.questions _ _ _ hquestions
  dsimp only at hw
  obtain ⟨ha, hroom⟩ := Emit.counted_upTo Emit.counted_record m.answers hroom
  obtain ⟨hu, hroom⟩ := Emit.counted_upTo Emit.counted_record m.authority hroom
  obtain ⟨hd, hroom⟩ := Emit.counted_upTo Emit.counted_record m.additional hroom
  obtain ⟨he, hroom⟩ := Emit.counted_upTo (Emit.counted_edns m.rcode) m.edns.toList hroom
  simp only [Body.bytes, List.length_append]
  omega

/-- No message is too long for its length to be written in two octets. -/
theorem length_encode?_le {m : Message} {bytes : Bytes} (h : m.encode? = some bytes) :
    bytes.length ≤ Emit.maxSize := by
  rw [encode?_eq, Option.map_eq_some_iff] at h
  obtain ⟨b, hb, rfl⟩ := h
  rw [List.length_append, length_header]
  exact length_body hb

end Message

end DnsFanout
