import DnsFanout.Outcome
import DnsFanout.Proofs.Wire.Decoding
import DnsFanout.Responder

/-! Messages that come from the wire, and those that are made of them. All of them are regular:
their names are absolute, and their records stand where the wire lets them. -/

namespace DnsFanout

namespace Cursor

variable {message : Bytes} {c c' : Cursor}

theorem absolute_of_name {n : Name} (h : name message c = some (n, c')) :
    n.absolute = true := by
  obtain ⟨⟨ls, last⟩, -, hrest⟩ := Option.bind_eq_some_iff.mp h
  obtain ⟨n', hn, heq⟩ := Option.bind_eq_some_iff.mp hrest
  cases heq
  simp only [Name.ofLabels?, Option.dite_none_right_eq_some, Option.some.injEq] at hn
  obtain ⟨-, rfl⟩ := hn
  rfl

theorem forall_of_repeated {α : Type} {item : Take α} {P : α → Prop}
    (hitem : ∀ {c x c'}, item c = some (x, c') → P x) {n : Nat} {xs : List α}
    (h : repeated item n c = some (xs, c')) : ∀ x ∈ xs, P x := by
  induction n generalizing c xs with
  | zero =>
    cases h
    exact nofun
  | succ n ih =>
    obtain ⟨⟨x, middle⟩, hx, hrest⟩ := Option.bind_eq_some_iff.mp h
    obtain ⟨⟨more, last⟩, hmore, heq⟩ := Option.bind_eq_some_iff.mp hrest
    cases heq
    intro y hy
    rcases List.mem_cons.mp hy with rfl | hy
    · exact hitem hx
    · exact ih hmore y hy

theorem absolute_of_question {q : Question} (h : question message c = some (q, c')) :
    q.name.absolute = true := by
  simp only [question, bind, Option.bind_eq_some_iff] at h
  obtain ⟨⟨n, _⟩, hn, ⟨type, _⟩, -, ⟨questionClass, _⟩, -, heq⟩ := h
  cases heq
  exact absolute_of_name hn

theorem absolute_of_data {type : RecordType} {size : Nat} {d : RecordData}
    (h : data message type size c = some (d, c')) : d.Absolute := by
  unfold data at h
  split at h
  · cases h
    trivial
  · split at h
    · obtain ⟨⟨n, _⟩, hn, heq⟩ := Option.bind_eq_some_iff.mp h
      cases heq
      exact absolute_of_name hn
    · simp only [bind, Option.bind_eq_some_iff] at h
      obtain ⟨⟨preference, _⟩, -, ⟨n, _⟩, hn, heq⟩ := h
      cases heq
      exact absolute_of_name hn
    · simp only [bind, Option.bind_eq_some_iff] at h
      obtain ⟨⟨primary, _⟩, hp, ⟨contact, _⟩, hc, _, -, _, -, _, -, _, -, _, -, heq⟩ := h
      cases heq
      exact ⟨absolute_of_name hp, absolute_of_name hc⟩
    · obtain ⟨⟨bytes, _⟩, -, heq⟩ := Option.bind_eq_some_iff.mp h
      cases heq
      trivial

theorem absolute_of_recordHead {head : RecordHead} (h : recordHead message c = some (head, c')) :
    head.owner.absolute = true := by
  simp only [recordHead, bind, Option.bind_eq_some_iff] at h
  obtain ⟨⟨owner, _⟩, ho, _, -, _, -, _, -, _, -, hsize⟩ := h
  split at hsize
  · cases hsize
  · cases hsize
    exact absolute_of_name ho

theorem absolute_of_recordBody {head : RecordHead} {r : Record}
    (hhead : head.owner.absolute = true) (h : recordBody message head c = some (r, c')) :
    r.Absolute ∧ r.type = head.type := by
  obtain ⟨⟨d, last⟩, hd, hrest⟩ := Option.bind_eq_some_iff.mp h
  dsimp only at hrest
  split at hrest
  · cases hrest
  · split at hrest
    · cases hrest
      exact ⟨⟨hhead, absolute_of_data hd⟩, rfl⟩
    · cases hrest

theorem regular_of_plainRecord {r : Record} (h : plainRecord message c = some (r, c')) :
    r.Absolute ∧ r.type.isAdditionalOnly = false := by
  obtain ⟨⟨head, middle⟩, hhead, hbody⟩ := Option.bind_eq_some_iff.mp h
  dsimp only at hbody
  split at hbody
  · cases hbody
  · next hplain =>
    obtain ⟨habsolute, htype⟩ := absolute_of_recordBody (absolute_of_recordHead hhead) hbody
    exact ⟨habsolute, htype ▸ Bool.eq_false_iff.mpr hplain⟩

theorem regular_of_additional {n : Nat} {found last : Option (Nat × Edns)} {rs : List Record}
    (h : additional message found n c = some ((rs, last), c')) :
    ∀ r ∈ rs, r.Absolute ∧ r.type ≠ RecordType.opt := by
  induction n generalizing c found rs with
  | zero =>
    cases h
    exact nofun
  | succ n ih =>
    obtain ⟨⟨head, middle⟩, hhead, hrest⟩ := Option.bind_eq_some_iff.mp h
    dsimp only at hrest
    split at hrest
    · obtain ⟨⟨e, after⟩, -, hmore⟩ := Option.bind_eq_some_iff.mp hrest
      dsimp only at hmore
      split at hmore
      · cases hmore
      · exact ih hmore
    · next hplain =>
      simp only [bind, Option.bind_eq_some_iff] at hrest
      obtain ⟨⟨r, after⟩, hr, ⟨⟨more, _⟩, _⟩, hmore, heq⟩ := hrest
      cases heq
      obtain ⟨habsolute, htype⟩ := absolute_of_recordBody (absolute_of_recordHead hhead) hr
      intro s hs
      rcases List.mem_cons.mp hs with rfl | hs
      · exact ⟨habsolute, htype ▸ hplain⟩
      · exact ih hmore s hs

end Cursor

namespace Message

/-- The steps of the decoder that give the number and the sections of a message. -/
structure ReadFrom (bytes : Bytes) (m : Message) : Prop where
  id : leadingWord? bytes = some m.id
  questions : ∃ n c c', Cursor.repeated (Cursor.question bytes) n c = some (m.questions, c')
  answers : ∃ n c c', Cursor.repeated (Cursor.plainRecord bytes) n c = some (m.answers, c')
  authority : ∃ n c c', Cursor.repeated (Cursor.plainRecord bytes) n c = some (m.authority, c')
  additional : ∃ n c last c',
    Cursor.additional bytes none n c = some ((m.additional, last), c')

theorem readFrom_of_decode? {bytes : Bytes} {m : Message} (h : decode? bytes = some m) :
    ReadFrom bytes m := by
  obtain ⟨⟨id, _⟩, hid, h⟩ := Option.bind_eq_some_iff.mp h
  obtain ⟨_, -, h⟩ := Option.bind_eq_some_iff.mp h
  obtain ⟨_, -, h⟩ := Option.bind_eq_some_iff.mp h
  obtain ⟨_, -, h⟩ := Option.bind_eq_some_iff.mp h
  obtain ⟨_, -, h⟩ := Option.bind_eq_some_iff.mp h
  obtain ⟨_, -, h⟩ := Option.bind_eq_some_iff.mp h
  obtain ⟨_, -, h⟩ := Option.bind_eq_some_iff.mp h
  obtain ⟨⟨questions, _⟩, hq, h⟩ := Option.bind_eq_some_iff.mp h
  obtain ⟨⟨answers, _⟩, ha, h⟩ := Option.bind_eq_some_iff.mp h
  obtain ⟨⟨authority, _⟩, hu, h⟩ := Option.bind_eq_some_iff.mp h
  obtain ⟨⟨⟨additional, _⟩, _⟩, hd, heq⟩ := Option.bind_eq_some_iff.mp h
  cases heq
  refine ⟨?_, ⟨_, _, _, hq⟩, ⟨_, _, _, ha⟩, ⟨_, _, _, hu⟩, ⟨_, _, _, _, hd⟩⟩
  match bytes, hid with
  | _ :: _ :: _, rfl => rfl

theorem regular_of_decode? {bytes : Bytes} {m : Message} (h : decode? bytes = some m) :
    m.Regular := by
  obtain ⟨-, ⟨_, _, _, hq⟩, ⟨_, _, _, ha⟩, ⟨_, _, _, hu⟩, ⟨_, _, _, _, hd⟩⟩ :=
    readFrom_of_decode? h
  exact {
    questions := Cursor.forall_of_repeated Cursor.absolute_of_question hq
    answers := Cursor.forall_of_repeated Cursor.regular_of_plainRecord ha
    authority := Cursor.forall_of_repeated Cursor.regular_of_plainRecord hu
    additional := Cursor.regular_of_additional hd }

theorem regular_probe (id : UInt16) : (probe id).Regular where
  questions := by simp [probe, Name.root]
  answers := by simp [probe]
  authority := by simp [probe]
  additional := by simp [probe]

theorem regular_of_empty {m : Message} (hq : ∀ q ∈ m.questions, q.name.absolute = true)
    (ha : m.answers = []) (hu : m.authority = []) (hd : m.additional = []) : m.Regular where
  questions := hq
  answers := by simp [ha]
  authority := by simp [hu]
  additional := by simp [hd]

end Message

end DnsFanout
