import DnsFanout.Proofs.DatagramSize

/-! What is left of a reply too large for its client. The short form keeps the questions and most
of the header; the authority of the answer, its authenticity and the high octet of the response
code are lost. -/

namespace DnsFanout

namespace Message

/-- Header and questions, as far as they stand in front of the records. -/
def heading (m : Message) : Message :=
  { m with
    answers := []
    authority := []
    additional := []
    edns := none
    rcode := ResponseCode.ofNat (m.rcode.val % 16) }

/-- The heading is read from the header and the questions alone. -/
theorem heading_of_header {message rest : Bytes} {id : UInt16} {high low : UInt8}
    {q a u d : Nat}
    (hmessage : message = word16 id.toNat ++ ([high, low] ++ (word16 q ++ (word16 a ++
      (word16 u ++ word16 d)))) ++ rest) {questions : List Question} {c : Cursor}
    (hquestions : Cursor.repeated (Cursor.question message) (announced q) ⟨12, rest⟩ =
      some (questions, c)) {whole : Message} (hwhole : decode? message = some whole) :
    whole.heading = {
      id, questions
      response := bitAt high 128
      opcode := Opcode.ofNat (high.toNat / 8)
      authoritative := bitAt high 4
      truncated := bitAt high 2
      recursionDesired := bitAt high 1
      recursionAvailable := bitAt low 128
      authenticData := bitAt low 32
      checkingDisabled := bitAt low 16
      rcode := ResponseCode.ofNat (low.toNat % 16) } := by
  rw [decode?_of_header hmessage] at hwhole
  obtain ⟨⟨s, last⟩, hsections, rfl⟩ := Option.map_eq_some_iff.mp hwhole
  have hasked : s.questions = questions := by
    rw [sections, hquestions] at hsections
    simp only [bind, Option.bind_some, Option.bind_eq_some_iff] at hsections
    obtain ⟨_, -, _, -, _, -, heq⟩ := hsections
    cases heq
    rfl
  -- the extension record has the high octet of the code, of which the heading takes nothing
  have hcode (n k : Nat) : (n * 16 + k % 16) % 4096 % 16 = k % 16 := by omega
  simp only [ofSections, heading, hasked, ResponseCode.ofNat, Fin.val_ofNat, hcode]

/-- Whatever else is read of a message that was written, its heading is. -/
theorem heading_of_decode? {m whole : Message} {bytes : Bytes} (hbytes : m.encode? = some bytes)
    (hwhole : decode? bytes = some whole) :
    whole.heading = { m.absolute.heading with truncated := whole.truncated } := by
  rw [← encode?_absolute, encode?_eq] at hbytes
  obtain ⟨b, hb, hbytes⟩ := Option.map_eq_some_iff.mp hbytes
  obtain ⟨⟨questions, w⟩, hq, hrest⟩ := Option.bind_eq_some_iff.mp hb
  have hquestions : b.questions = questions := by
    cases hrest
    rfl
  have hstart : Written.Matches ⟨12, []⟩ (m.absolute.header b) :=
    ⟨rfl, by simp [length_header, Emit.maxSize], nofun⟩
  obtain ⟨hw, hread⟩ := (Emit.readAs_questions m.absolute_questions).run hstart hq
  -- the header's count wraps at 65536, which so many questions never reach
  have hcount : m.absolute.questions.length < 65536 := by
    have hle := Emit.length_le_questions hq
    have hmax := hw.le_max
    rw [List.length_append] at hmax
    simp only [Emit.maxSize] at hmax
    omega
  have hasked := hread bytes _ (by rw [← hbytes, Body.bytes, hquestions, List.append_assoc])
  rw [← hquestions, ← announced_of_lt hcount] at hasked
  obtain ⟨high, low, hflags, ⟨h128, hopcode, h4, -, h1⟩, l128, l32, l16, lcode⟩ :=
    m.absolute.exists_flagOctets (m.truncated || !b.complete)
  have hheader : bytes = m.absolute.header b ++ b.bytes := hbytes.symm
  rw [header] at hheader
  have hheading := heading_of_header (hflags ▸ hheader) hasked hwhole
  have htruncated : whole.truncated = bitAt high 2 := congrArg truncated hheading
  rw [hheading, htruncated, h128, hopcode, h4, h1, l128, l32, l16, lcode]
  rfl

theorem Bare.cut_eq {m : Message} (h : m.Bare) (b : Body) :
    m.cut b = { m.heading with truncated := m.truncated || !b.complete } := by
  simp [Message.cut, heading, h.answers, h.authority, h.additional, h.edns]

theorem Bare.decode?_eq {m : Message} (h : m.Bare) {bytes : Bytes}
    (hbytes : m.encode? = some bytes) : decode? bytes = some m.absolute.heading := by
  have hbare : m.absolute.Bare := ⟨h.answers, h.authority, h.additional, h.edns⟩
  rw [← encode?_absolute] at hbytes
  obtain ⟨⟨questions, w⟩, hq⟩ := exists_encode?_iff.mp ⟨bytes, hbytes⟩
  have hregular : m.absolute.Regular :=
    regular_of_empty m.absolute_questions hbare.answers hbare.authority hbare.additional
  have hbody := hbare.body? hq
  rw [encode?_eq, hbody, Option.map_some, Option.some.injEq] at hbytes
  rw [← hbytes, decode?_wire hregular hbody, hbare.cut_eq]
  simp [Body.complete, Emit.upTo, heading]

/-- The message without its records, and marked as truncated. -/
def withoutRecords (m : Message) : Message :=
  { m with truncated := true, answers := [], authority := [], additional := [], edns := none }

/-- What the short form of a message tells of it. -/
def stub (m : Message) : Message :=
  { m.heading with
    response := true
    truncated := true
    authoritative := false
    authenticData := false }

/-- The records are all that is missing exactly if the message is a response with neither of the
two marks, and its code fits the header. -/
theorem stub_eq_iff {m : Message} : m.stub = m.withoutRecords ↔
    m.response = true ∧ m.authoritative = false ∧ m.authenticData = false ∧ m.rcode.val < 16 := by
  have hcode : ResponseCode.ofNat (m.rcode.val % 16) = m.rcode ↔ m.rcode.val < 16 := by
    have hlt := m.rcode.isLt
    rw [Fin.ext_iff]
    show m.rcode.val % 16 % 4096 = m.rcode.val ↔ _
    omega
  constructor
  · intro h
    exact ⟨(congrArg response h).symm, (congrArg authoritative h).symm,
      (congrArg authenticData h).symm, hcode.mp (congrArg rcode h)⟩
  · rintro ⟨hresponse, hauthoritative, hauthentic, hlt⟩
    rw [stub, withoutRecords, heading, hcode.mpr hlt, hresponse, hauthoritative, hauthentic]

/-- The short form of a message is read as the stub of what its full form is read as. -/
theorem exists_short {m : Message} {full : Bytes} (hfull : m.encode? = some full) :
    ∃ sent, (Responder.shorten m).encode? = some sent ∧
      decode? sent = some m.absolute.stub ∧
      ∀ whole, decode? full = some whole → whole.stub = m.absolute.stub := by
  have hquestions := exists_encode?_iff.mp ⟨full, hfull⟩
  obtain ⟨sent, hsent⟩ : ∃ sent, (Responder.shorten m).encode? = some sent :=
    exists_encode?_iff.mpr hquestions
  refine ⟨sent, hsent, (bare_shorten m).decode?_eq hsent, fun whole hwhole => ?_⟩
  rw [stub, heading_of_decode? hfull hwhole]
  rfl

end Message

namespace Responder

variable {η : Type} [Handler η] {r : Responder η} {now : Instant}
  {client : Option Net.SocketAddress} {query : Bytes} {m reply : Message} {size : UInt16}
  {done : Answered η (Message × UInt16)}

theorem size_of_answer {transport : Transport} (hquery : Message.decode? query = some m)
    (h : r.answer now transport client query = some done)
    (hreply : done.reply = some (reply, size)) : size.toNat = limit m := by
  cases hasks : m.response with
  | true =>
    simp only [answer, hquery, hasks, if_true] at h
    cases h
    cases hreply
  | false =>
    rw [answer_of_query hquery hasks] at h
    obtain ⟨handled, -, rfl⟩ := Option.map_eq_some_iff.mp h
    cases hreply
    exact toNat_maxPayload m

/-- Of a reply too large for its client, the client is sent the stub. Over streams it is sent
the full form of the same reply. -/
theorem overDatagrams_stub {full : Bytes} (hquery : Message.decode? query = some m)
    (hanswer : r.answer now .datagram client query = some done)
    (hreply : done.reply = some (reply, size)) (hfull : reply.encode? = some full)
    (hlong : limit m < full.length) :
    (∃ sent short, (r.overDatagrams now client query).bind Answered.reply = some sent ∧
      Message.decode? sent = some short ∧ short = reply.absolute.stub ∧
      ∀ whole, Message.decode? full = some whole → short = whole.stub ∧
        (short = whole.withoutRecords ↔ whole.response = true ∧ whole.authoritative = false ∧
          whole.authenticData = false ∧ whole.rcode.val < 16)) ∧
    (reply.Regular → ∃ whole, Message.decode? full = some whole) ∧
    ∀ streamed size', r.answer now .stream client query = some streamed →
      streamed.reply = some (reply, size') →
      (r.overStream now client query).bind Answered.reply = some full := by
  refine ⟨?_, fun hregular => ?_, fun streamed size' hstreamed hsame => ?_⟩
  · obtain ⟨sent, hsent, hdecode, hstub⟩ := Message.exists_short hfull
    have hfits : ¬ full.length ≤ size.toNat := by
      rw [size_of_answer hquery hanswer hreply]
      exact Nat.not_le.mpr hlong
    refine ⟨sent, _, ?_, hdecode, rfl, fun whole hwhole => ?_⟩
    · simp [overDatagrams, hanswer, hreply, datagram, hfull, hfits, hsent]
    · rw [← hstub whole hwhole]
      exact ⟨rfl, Message.stub_eq_iff⟩
  · rw [Message.encode?_eq] at hfull
    obtain ⟨b, hb, rfl⟩ := Option.map_eq_some_iff.mp hfull
    exact ⟨_, Message.decode?_wire hregular hb⟩
  · simp [overStream, hstreamed, hsame, hfull]

end Responder

namespace Rehearsal

/-- An answer of 600 octets, with authority or without. -/
def longAnswer (authoritative : Bool) : Message := { verboseReply with authoritative }

def longAnswering (authoritative : Bool) : Responder Handler :=
  ⟨.reply (longAnswer authoritative) ResponseCode.noError, 5000⟩

theorem answer_longAnswering (authoritative : Bool) (transport : Transport) :
    (longAnswering authoritative).answer 0 transport none rootOctets =
      some ⟨some (longAnswer authoritative, 512), 0, longAnswering authoritative⟩ := by
  have hquery := decode?_rootOctets
  rw [Responder.answer_of_query hquery rfl]
  rfl

theorem regular_longAnswer (authoritative : Bool) : (longAnswer authoritative).Regular where
  questions q hq := by
    obtain rfl := List.mem_singleton.mp hq
    rfl
  answers record hrecord := by
    obtain rfl := List.mem_singleton.mp hrecord
    exact ⟨⟨rfl, trivial⟩, by decide⟩
  authority := nofun
  additional := nofun

theorem exists_longAnswer (authoritative : Bool) :
    ∃ full b, (longAnswer authoritative).encode? = some full ∧ 512 < full.length ∧
      Message.decode? full = some ((longAnswer authoritative).cut b) := by
  have hlength : ∀ authoritative : Bool,
      (longAnswer authoritative).encode?.map List.length = some 628 := by decide +kernel
  obtain ⟨full, hfull, hlong⟩ := Option.map_eq_some_iff.mp (hlength authoritative)
  have hencode := hfull
  rw [Message.encode?_eq] at hencode
  obtain ⟨b, hb, rfl⟩ := Option.map_eq_some_iff.mp hencode
  exact ⟨_, b, hfull, by omega, Message.decode?_wire (regular_longAnswer authoritative) hb⟩

/-- Of an answer without authority only the records are missing. -/
theorem stub_longAnswer : ∃ done sent full short whole,
    Message.decode? rootOctets = some rootQuery.message ∧
    (longAnswering false).answer 0 .datagram none rootOctets = some done ∧
    done.reply = some (longAnswer false, 512) ∧ (longAnswer false).encode? = some full ∧
    Responder.limit rootQuery.message < full.length ∧
    ((longAnswering false).overDatagrams 0 none rootOctets).bind Responder.Answered.reply =
      some sent ∧
    ((longAnswering false).overStream 0 none rootOctets).bind Responder.Answered.reply =
      some full ∧
    Message.decode? sent = some short ∧ Message.decode? full = some whole ∧
    short = whole.withoutRecords := by
  have hquery := decode?_rootOctets
  obtain ⟨full, b, hfull, hlong, hwhole⟩ := exists_longAnswer false
  have hanswer := answer_longAnswering false
  obtain ⟨⟨sent, short, hsent, hshort, -, hread⟩, -, hstream⟩ :=
    Responder.overDatagrams_stub hquery (hanswer .datagram) rfl hfull hlong
  have hcode : ((longAnswer false).cut b).rcode.val < 16 := by
    dsimp only [Message.cut]
    split <;> decide
  have heq := (hread _ hwhole).2.mpr ⟨rfl, rfl, rfl, hcode⟩
  exact ⟨_, sent, full, short, _, hquery, hanswer .datagram, rfl, hfull, hlong, hsent,
    hstream _ 512 (hanswer .stream) rfl, hshort, hwhole, heq⟩

/-- The short form of an answer with authority does not say that it has any. -/
theorem authority_longAnswer : ∃ sent full short whole,
    ((longAnswering true).overDatagrams 0 none rootOctets).bind Responder.Answered.reply =
      some sent ∧
    ((longAnswering true).overStream 0 none rootOctets).bind Responder.Answered.reply =
      some full ∧
    Message.decode? rootOctets = some rootQuery.message ∧
    Responder.limit rootQuery.message < full.length ∧
    Message.decode? sent = some short ∧ Message.decode? full = some whole ∧
    whole.authoritative = true ∧ short.authoritative = false := by
  obtain ⟨full, b, hfull, hlong, hwhole⟩ := exists_longAnswer true
  obtain ⟨sent, hsent, hshort, -⟩ := Message.exists_short hfull
  have hfits : ¬ full.length ≤ 512 := Nat.not_le.mpr hlong
  refine ⟨sent, full, _, _, ?_, ?_, decode?_rootOctets, hlong, hshort, hwhole, rfl, rfl⟩
  · simp [Responder.overDatagrams, answer_longAnswering, Responder.datagram, hfull, hfits, hsent]
  · simp [Responder.overStream, answer_longAnswering, hfull]

end Rehearsal

end DnsFanout
