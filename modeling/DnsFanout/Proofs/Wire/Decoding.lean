import DnsFanout.Proofs.Wire.Section

/-! What the wire form of a message is decoded to: the message itself, up to the records that
did not fit. -/

namespace DnsFanout

namespace Message

/-- The wire form of a message after its header. -/
structure Body where
  questions : Bytes
  answers : Emit.Section
  authority : Emit.Section
  additional : Emit.Section
  extension : Emit.Section

namespace Body

def complete (b : Body) : Bool :=
  b.answers.complete && b.authority.complete && b.additional.complete && b.extension.complete

def bytes (b : Body) : Bytes :=
  b.questions ++ (b.answers.bytes ++ (b.authority.bytes ++
    (b.additional.bytes ++ b.extension.bytes)))

end Body

/-- The body of the wire form; none when the questions alone do not fit. -/
def body? (m : Message) : Option Body := do
  let (questions, w) ← Emit.questions m.questions ⟨12, []⟩
  let answers := Emit.upTo (m.answers.map Emit.record) w
  let authority := Emit.upTo (m.authority.map Emit.record) answers.written
  let additional := Emit.upTo (m.additional.map Emit.record) authority.written
  let extension := Emit.upTo (m.edns.toList.map (Emit.edns m.rcode)) additional.written
  return ⟨questions, answers, authority, additional, extension⟩

/-- Everything in the message has its place in the wire form. -/
def fits (m : Message) : Bool := m.body?.any Body.complete

def header (m : Message) (b : Body) : Bytes :=
  word16 m.id.toNat ++ (m.flagOctets (m.truncated || !b.complete) ++
    (word16 m.questions.length ++ (word16 b.answers.count ++ (word16 b.authority.count ++
      word16 (b.additional.count + b.extension.count)))))

theorem encode?_eq (m : Message) : m.encode? = m.body?.map fun b => m.header b ++ b.bytes := by
  unfold encode? body?
  cases Emit.questions m.questions ⟨12, []⟩ with
  | none => rfl
  | some written =>
    simp [header, Body.bytes, Body.complete, List.append_assoc]

/-- What is left of a message of which only the beginnings of its sections are kept; without
the extension record the response code has four bits. -/
def cut (m : Message) (b : Body) : Message :=
  let edns := (m.edns.toList.take b.extension.count).head?
  { m with
    edns
    truncated := m.truncated || !b.complete
    answers := m.answers.take b.answers.count
    authority := m.authority.take b.authority.count
    additional := m.additional.take b.additional.count
    rcode := if edns.isSome then m.rcode else ResponseCode.ofNat (m.rcode.val % 16) }

/-- A message as it comes from the wire: all names are absolute, and records stand only in
the sections that may hold them. -/
structure Regular (m : Message) : Prop where
  questions : ∀ q ∈ m.questions, q.name.absolute = true
  answers : ∀ r ∈ m.answers, r.Absolute ∧ r.type.isAdditionalOnly = false
  authority : ∀ r ∈ m.authority, r.Absolute ∧ r.type.isAdditionalOnly = false
  additional : ∀ r ∈ m.additional, r.Absolute ∧ r.type ≠ RecordType.opt

/-! ### Flags -/

theorem high_flags : ∀ (response authoritative truncated desired : Bool) (opcode : Opcode),
    let bit (b : Bool) (place : Nat) : Nat := if b then place else 0
    let high := (bit response 128 + opcode.val * 8 + bit authoritative 4 + bit truncated 2 +
      bit desired 1).toUInt8
    bitAt high 128 = response ∧ Opcode.ofNat (high.toNat / 8) = opcode ∧
      bitAt high 4 = authoritative ∧ bitAt high 2 = truncated ∧ bitAt high 1 = desired := by
  decide

theorem low_flags : ∀ (available authentic unchecked : Bool) (code : Fin 16),
    let bit (b : Bool) (place : Nat) : Nat := if b then place else 0
    let low := (bit available 128 + bit authentic 32 + bit unchecked 16 + code.val).toUInt8
    bitAt low 128 = available ∧ bitAt low 32 = authentic ∧ bitAt low 16 = unchecked ∧
      low.toNat % 16 = code.val := by
  decide

theorem exists_flagOctets (m : Message) (truncated : Bool) :
    ∃ high low, m.flagOctets truncated = [high, low] ∧
      (bitAt high 128 = m.response ∧ Opcode.ofNat (high.toNat / 8) = m.opcode ∧
        bitAt high 4 = m.authoritative ∧ bitAt high 2 = truncated ∧
        bitAt high 1 = m.recursionDesired) ∧
      bitAt low 128 = m.recursionAvailable ∧ bitAt low 32 = m.authenticData ∧
        bitAt low 16 = m.checkingDisabled ∧ low.toNat % 16 = m.rcode.val % 16 :=
  ⟨_, _, rfl, high_flags .., low_flags _ _ _ ⟨m.rcode.val % 16, Nat.mod_lt _ (by decide)⟩⟩

/-! ### The body -/

/-- After a header, each part of the body is read as what it stands for. -/
structure Body.Holds (b : Body) (m : Message) (header : Bytes) : Prop where
  length_le : m.questions.length ≤ b.questions.length
  questions : ∀ message more, message = header ++ b.questions ++ more →
    Cursor.repeated (Cursor.question message) m.questions.length
      ⟨header.length, b.questions ++ more⟩ =
        some (m.questions, ⟨header.length + b.questions.length, more⟩)
  answers : b.answers.Holds (header ++ b.questions) Cursor.plainRecord m.answers
  authority : b.authority.Holds (header ++ b.questions ++ b.answers.bytes) Cursor.plainRecord
    m.authority
  additional : b.additional.Holds (header ++ b.questions ++ b.answers.bytes ++ b.authority.bytes)
    Cursor.looseRecord m.additional
  extension : b.extension.Holds
    (header ++ b.questions ++ b.answers.bytes ++ b.authority.bytes ++ b.additional.bytes)
    Cursor.extensionRecord (m.edns.toList.map fun e => (m.rcode.val / 16, e))

theorem holds_of_body? {m : Message} {b : Body} (hm : m.Regular) (hb : m.body? = some b)
    {header : Bytes} (hheader : header.length = 12) : b.Holds m header := by
  obtain ⟨⟨questions, w⟩, hq, hrest⟩ := Option.bind_eq_some_iff.mp hb
  cases hrest
  have hstart : Written.Matches ⟨12, []⟩ header :=
    ⟨hheader.symm, by rw [hheader]; decide, nofun⟩
  obtain ⟨hw, hquestions⟩ := (Emit.readAs_questions hm.questions).run hstart hq
  have hanswers := Emit.holds_upTo hw
    (fun r hr => Emit.readAs_record (hm.answers r hr).1 (hm.answers r hr).2) Emit.record_ne_nil
  have hauthority := Emit.holds_upTo hanswers.matching
    (fun r hr => Emit.readAs_record (hm.authority r hr).1 (hm.authority r hr).2) Emit.record_ne_nil
  have hadditional := Emit.holds_upTo hauthority.matching
    (fun r hr => Emit.readAs_looseRecord (hm.additional r hr).1 (hm.additional r hr).2)
    Emit.record_ne_nil
  have hextension := Emit.holds_upTo hadditional.matching
    (fun e (_ : e ∈ m.edns.toList) => Emit.readAs_edns m.rcode e) Emit.edns_ne_nil
  simp only [List.map_id'] at hanswers hauthority hadditional
  exact ⟨Emit.length_le_questions hq, hquestions, hanswers, hauthority, hadditional, hextension⟩

theorem length_header (m : Message) (b : Body) : (m.header b).length = 12 := rfl

theorem Body.Holds.count_lt {b : Body} {m : Message} {header : Bytes} (h : b.Holds m header) :
    m.questions.length < 65536 ∧ b.answers.count < 65536 ∧ b.authority.count < 65536 ∧
      b.additional.count + b.extension.count < 65536 := by
  have hmax := h.extension.matching.le_max
  have := h.length_le
  have := h.answers.count_le_bytes
  have := h.authority.count_le_bytes
  have := h.additional.count_le_bytes
  have := h.extension.count_le_bytes
  simp only [List.length_append, Emit.maxSize] at hmax
  omega

/-- The number that is read where a number of items was written. -/
def announced (n : Nat) : Nat := (ofWord16 (n / 256).toUInt8 n.toUInt8).toNat

theorem announced_of_lt {n : Nat} (h : n < 65536) : announced n = n := toNat_ofWord16 h

/-- What stands in the sections of a message. -/
structure Sections where
  questions : List Question
  answers : List Record
  authority : List Record
  additional : List Record
  /-- The extension record, with the high octet of the response code. -/
  extension : Option (Nat × Edns)

/-- The sections, one after the other, with as many items as were announced. -/
def sections (message : Bytes) (q a u d : Nat) : Take Sections := fun c => do
  let (questions, c) ← Cursor.repeated (Cursor.question message) q c
  let (answers, c) ← Cursor.repeated (Cursor.plainRecord message) a c
  let (authority, c) ← Cursor.repeated (Cursor.plainRecord message) u c
  let ((additional, extension), c) ← Cursor.additional message none d c
  return (⟨questions, answers, authority, additional, extension⟩, c)

/-- The message that has the sections, by its number and flags. -/
def ofSections (id : UInt16) (high low : UInt8) (s : Sections) : Message where
  id
  response := bitAt high 128
  opcode := Opcode.ofNat (high.toNat / 8)
  authoritative := bitAt high 4
  truncated := bitAt high 2
  recursionDesired := bitAt high 1
  recursionAvailable := bitAt low 128
  authenticData := bitAt low 32
  checkingDisabled := bitAt low 16
  rcode := ResponseCode.ofNat ((s.extension.map (·.1)).getD 0 * 16 + low.toNat % 16)
  questions := s.questions
  answers := s.answers
  authority := s.authority
  additional := s.additional
  edns := s.extension.map (·.2)

/-- A message is decoded when its sections are read. -/
theorem decode?_of_header {message rest : Bytes} {id : UInt16} {high low : UInt8}
    {q a u d : Nat}
    (hmessage : message = word16 id.toNat ++ ([high, low] ++ (word16 q ++ (word16 a ++
      (word16 u ++ word16 d)))) ++ rest) :
    decode? message = (sections message (announced q) (announced a) (announced u) (announced d)
      ⟨12, rest⟩).map fun x => ofSections id high low x.1 := by
  have hid : Cursor.word16 ⟨0, message⟩ = some (id, ⟨2, high :: low :: (word16 q ++ (word16 a ++
      (word16 u ++ (word16 d ++ rest))))⟩) := by
    simp only [hmessage, List.append_assoc]
    exact congrArg (fun n => some (n, _)) (ofWord16_word16 id)
  rw [decode?, hid]
  simp only [sections, bind, Option.map_bind, Function.comp_def]
  rfl

/-- The sections of which everything has its place in the wire form are read from it, and nothing
is left over. -/
theorem sections_wire {m : Message} {b : Body} (hm : m.Regular) (hb : m.body? = some b) :
    sections (m.header b ++ b.bytes) m.questions.length b.answers.count b.authority.count
      (b.additional.count + b.extension.count) ⟨12, b.bytes⟩ =
      some (⟨m.questions, m.answers.take b.answers.count, m.authority.take b.authority.count,
        m.additional.take b.additional.count,
        (m.edns.toList.take b.extension.count).head?.map fun e => (m.rcode.val / 16, e)⟩,
        ⟨12 + b.bytes.length, []⟩) := by
  have h := holds_of_body? hm hb (m.length_header b)
  generalize hmessage : m.header b ++ b.bytes = message
  have hquestions := h.questions message
    (b.answers.bytes ++ (b.authority.bytes ++ (b.additional.bytes ++ b.extension.bytes)))
    (by simp [← hmessage, Body.bytes])
  have hanswers := h.answers.read message
    (b.authority.bytes ++ (b.additional.bytes ++ b.extension.bytes))
    (by simp [← hmessage, Body.bytes])
  have hauthority := h.authority.read message (b.additional.bytes ++ b.extension.bytes)
    (by simp [← hmessage, Body.bytes])
  have hrecords := h.additional.read message b.extension.bytes (by simp [← hmessage, Body.bytes])
  have hextension := h.extension.read message [] (by simp [← hmessage, Body.bytes])
  simp only [List.length_append, List.append_nil, length_header]
    at hquestions hanswers hauthority hrecords hextension
  have hone : b.extension.count ≤ 1 := by
    have hle := h.extension.count_le
    rw [List.length_map] at hle
    exact Nat.le_trans hle (by cases m.edns <;> simp)
  have hadditional := Cursor.additional_append hrecords none b.extension.count
  rw [Cursor.additional_extension hone hextension] at hadditional
  simp only [Option.map_some, List.append_nil, ← List.map_take, List.head?_map] at hadditional
  have hlength : 12 + b.bytes.length = 12 + b.questions.length + b.answers.bytes.length +
      b.authority.bytes.length + b.additional.bytes.length + b.extension.bytes.length := by
    simp only [Body.bytes, List.length_append]
    omega
  rw [hlength, sections, Body.bytes, hquestions]
  simp only [bind, Option.bind_some, hanswers, hauthority, hadditional]
  rfl

/-- Whatever has its place in the wire form is decoded from it. -/
theorem decode?_wire {m : Message} {b : Body} (hm : m.Regular) (hb : m.body? = some b) :
    decode? (m.header b ++ b.bytes) = some (m.cut b) := by
  obtain ⟨hq, ha, hu, hd⟩ := (holds_of_body? hm hb (m.length_header b)).count_lt
  obtain ⟨high, low, hflags, ⟨h128, hopcode, h4, h2, h1⟩, l128, l32, l16, lcode⟩ :=
    m.exists_flagOctets (m.truncated || !b.complete)
  have hmessage : m.header b ++ b.bytes = word16 m.id.toNat ++ ([high, low] ++
      (word16 m.questions.length ++ (word16 b.answers.count ++ (word16 b.authority.count ++
        word16 (b.additional.count + b.extension.count))))) ++ b.bytes := by
    rw [header, hflags]
  rw [decode?_of_header hmessage, announced_of_lt hq, announced_of_lt ha, announced_of_lt hu,
    announced_of_lt hd, sections_wire hm hb, Option.map_some, ofSections, h128, hopcode, h4, h2,
    h1, l128, l32, l16, lcode, cut]
  cases (m.edns.toList.take b.extension.count).head? with
  | none => simp
  | some e =>
    have hcode : ResponseCode.ofNat (m.rcode.val / 16 * 16 + m.rcode.val % 16) = m.rcode := by
      rw [Nat.div_add_mod']
      exact Fin.ofNat_val_eq_self m.rcode
    simp [hcode]

end Message

end DnsFanout
