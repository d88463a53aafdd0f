import DnsFanout.Proofs.Answering
import DnsFanout.Rehearsal.Handler

/-! The size of replies over datagrams. A reply within the size that the client takes is sent as
it is; of any other, header and question are left, which fit every client. -/

namespace DnsFanout

/-- The question as it comes from the wire, where all names are absolute. -/
def Question.absolute (q : Question) : Question := { q with name := q.name.toAbsolute }

theorem Question.map_absolute {qs : List Question} (h : ∀ q ∈ qs, q.name.absolute = true) :
    qs.map Question.absolute = qs := by
  refine (List.map_congr_left fun q hq => ?_).trans (List.map_id qs)
  obtain ⟨⟨labels, absolute, hsize⟩, type, questionClass⟩ := q
  cases h _ hq
  rfl

theorem Emit.questions_absolute (qs : List Question) :
    questions (qs.map Question.absolute) = questions qs := by
  induction qs with
  | nil => rfl
  | cons q qs ih =>
    show question q ++ questions (qs.map Question.absolute) = _
    rw [ih]
    rfl

namespace Message

/-- The message holds no records. -/
structure Bare (m : Message) : Prop where
  answers : m.answers = []
  authority : m.authority = []
  additional : m.additional = []
  edns : m.edns = none

theorem bare_shorten (m : Message) : (Responder.shorten m).Bare := ⟨rfl, rfl, rfl, rfl⟩

def absolute (m : Message) : Message := { m with questions := m.questions.map Question.absolute }

theorem absolute_questions (m : Message) :
    ∀ q ∈ m.absolute.questions, q.name.absolute = true := by
  intro q hq
  obtain ⟨asked, -, rfl⟩ := List.mem_map.mp hq
  rfl

theorem encode?_absolute (m : Message) : m.absolute.encode? = m.encode? := by
  have hquestions : Emit.questions m.absolute.questions = Emit.questions m.questions :=
    Emit.questions_absolute m.questions
  have hlength : m.absolute.questions.length = m.questions.length := List.length_map ..
  simp only [encode?, hquestions, hlength]
  rfl

theorem length_questions {qs : List Question} (h : ∀ q ∈ qs, q.name.absolute = true)
    {bytes : Bytes} {w : Written} (hq : Emit.questions qs ⟨12, []⟩ = some (bytes, w)) :
    w.offset = 12 + bytes.length := by
  have hstart : Written.Matches ⟨12, []⟩ (List.replicate 12 0) := ⟨rfl, by decide, nofun⟩
  obtain ⟨hmatches, -⟩ := (Emit.readAs_questions h).run hstart hq
  rw [hmatches.offset, List.length_append, List.length_replicate]

theorem Bare.body? {m : Message} (h : m.Bare) {questions : Bytes} {w : Written}
    (hq : Emit.questions m.questions ⟨12, []⟩ = some (questions, w)) :
    m.body? = some ⟨questions, Emit.upTo [] w, Emit.upTo [] w, Emit.upTo [] w, Emit.upTo [] w⟩ := by
  rw [Message.body?, hq, h.answers, h.authority, h.additional, h.edns]
  rfl

theorem Bare.cut {m : Message} (h : m.Bare) (b : Body) : (m.cut b).Bare := by
  obtain ⟨ha, hu, hd, he⟩ := h
  constructor <;> simp [Message.cut, ha, hu, hd, he]

theorem exists_encode?_iff {m : Message} : (∃ bytes, m.encode? = some bytes) ↔
    ∃ written, Emit.questions m.questions ⟨12, []⟩ = some written := by
  unfold encode?
  cases Emit.questions m.questions ⟨12, []⟩ <;> simp

/-- The header takes 12 octets and a question at most 259. -/
theorem exists_encode?_bare {m : Message} (hm : m.Bare) (hone : m.questions.length ≤ 1) :
    ∃ bytes sent, m.encode? = some bytes ∧ bytes.length ≤ 271 ∧ decode? bytes = some sent ∧
      sent.Bare ∧ m.absolute.Heads sent ∧ (m.truncated = true → sent.truncated = true) := by
  have hbare : m.absolute.Bare := ⟨hm.answers, hm.authority, hm.additional, hm.edns⟩
  have hregular : m.absolute.Regular :=
    regular_of_empty m.absolute_questions hbare.answers hbare.authority hbare.additional
  obtain ⟨questions, w, hq, hoffset⟩ :=
    Emit.exists_questions (Nat.le_trans (Nat.le_of_eq (List.length_map ..)) hone)
  have hlength := length_questions m.absolute_questions hq
  have hbody := hbare.body? hq
  refine ⟨_, _, ?_, ?_, decode?_wire hregular hbody, hbare.cut _, heads_cut _ _, fun h => ?_⟩
  · rw [← encode?_absolute, encode?_eq, hbody]
    rfl
  · simp only [List.length_append, length_header, Body.bytes, Emit.upTo, List.length_nil]
    omega
  · simp [Message.cut, show m.absolute.truncated = true from h]

theorem exists_encode?_of_length {m : Message} (hone : m.questions.length ≤ 1) :
    ∃ bytes, m.encode? = some bytes := by
  obtain ⟨questions, w, hq, -⟩ := Emit.exists_questions hone
  exact exists_encode?_iff.mpr ⟨_, hq⟩

end Message

/-! ### Replies of a forwarder -/

namespace Forwarder

variable {ρ η : Type} [Resolver ρ] {f : Forwarder ρ η} {now : Instant} {scope : Scope}
  {request : Request}

theorem matches_of_forward {done : FanOut ρ η} (h : f.forward now scope request = some done)
    {reply : Message} (hreply : done.result = .ok reply) :
    request.matchesReply reply = true := by
  obtain ⟨schedule, -, -, hresult, -⟩ := exists_schedule h
  exact (Crew.vouched_of_result (hresult.trans hreply)).frame

/-- Without a handler after it, a forwarder repeats the question or fails. -/
theorem length_questions_le [Handler η] (hnext : f.next = none) {sink : Sink}
    {handled : Handled (Forwarder ρ η)} (h : f.process now scope sink request = some handled) :
    (Responder.replyOf request handled).questions.length ≤ 1 := by
  have hfailure : (Responder.serverFailure request).questions.length ≤ 1 := by
    show request.question?.toList.length ≤ 1
    cases request.question? <;> simp
  by_cases hadmits : f.admission.admitsRequest request
  · simp only [process, hadmits, if_true] at h
    obtain ⟨done, hdone, hhandled⟩ := Option.bind_eq_some_iff.mp h
    cases hresult : done.result with
    | error cause =>
      simp only [hresult] at hhandled
      cases hhandled
      exact hfailure
    | ok reply =>
      have hone := (Request.of_matchesReply (matches_of_forward hdone hresult)).2.2.2
      simp only [hresult] at hhandled
      cases hhandled
      cases hsink : sink [] reply with
      | none => simpa [Responder.replyOf, Sink.offer, hsink] using Nat.le_of_eq hone
      | some cause => simpa [Responder.replyOf, Sink.offer, hsink] using hfailure
  · simp only [process, hadmits, hnext] at h
    cases h
    exact hfailure

end Forwarder

/-! ### What a client is sent -/

namespace Responder

/-- The size of datagram that the sender of a query takes. -/
def limit (query : Message) : Nat := max 512 (query.edns.elim 0 fun e => e.payload.toNat)

theorem toNat_maxPayload (query : Message) : query.maxPayload.toNat = limit query := by
  unfold Message.maxPayload limit
  cases query.edns with
  | none => rfl
  | some e => exact (Nat.max_eq_right e.payload_ge).symm

/-- What is sent for a reply is its wire form if that has no more octets than the limit, and
otherwise header and question, marked as truncated. -/
structure Limited (reply : Message) (limit : Nat) (full sent : Bytes) : Prop where
  length_le : sent.length ≤ limit
  whole : full.length ≤ limit → sent = full
  short : limit < full.length → ∃ m, Message.decode? sent = some m ∧ m.response = true ∧
    m.truncated = true ∧ m.id = reply.id ∧ m.questions = reply.questions.map Question.absolute ∧
    ((∀ q ∈ reply.questions, q.name.absolute = true) → m.questions = reply.questions) ∧ m.Bare

theorem exists_datagram {reply : Message} (hone : reply.questions.length ≤ 1) (query : Message) :
    ∃ full sent, reply.encode? = some full ∧ datagram reply query.maxPayload = some sent ∧
      Limited reply (limit query) full sent := by
  obtain ⟨full, hfull⟩ := Message.exists_encode?_of_length hone
  have hlimit := toNat_maxPayload query
  by_cases hfits : full.length ≤ limit query
  · exact ⟨full, full, hfull, by simp [datagram, hfull, hlimit, hfits], hfits, fun _ => rfl,
      fun hlong => absurd hlong (Nat.not_lt.mpr hfits)⟩
  · obtain ⟨short, m, hshort, hlength, hdecode, hbare, hheads, htruncated⟩ :=
      Message.exists_encode?_bare (Message.bare_shorten reply) hone
    have hsmall : 271 ≤ limit query := Nat.le_trans (by decide) (Nat.le_max_left 512 _)
    refine ⟨full, short, hfull, by simp [datagram, hfull, hlimit, hfits, hshort],
      Nat.le_trans hlength hsmall, fun h => absurd h hfits, fun _ => ⟨m, hdecode, ?_⟩⟩
    exact ⟨hheads.response rfl, htruncated rfl, hheads.id, hheads.questions,
      fun habsolute => hheads.questions.trans (Question.map_absolute habsolute), hbare⟩

variable {η : Type} [Handler η]

/-- A client is never sent a datagram longer than it takes. Over streams it is sent the wire
form of any reply. The replies of a forwarder without a handler after it have one question at
most. -/
theorem overDatagrams_limited {ρ ζ : Type} [Resolver ρ] [Handler ζ] {query : Bytes} {m : Message}
    (hquery : Message.decode? query = some m) (r : Responder η) (now : Instant)
    (client : Option Net.SocketAddress) :
    (m.response = true →
      ∃ done, r.overDatagrams now client query = some done ∧ done.reply = none) ∧
    (∀ handled, m.response = false → r.handled? now ⟨m, .datagram, client⟩ = some handled →
      (replyOf ⟨m, .datagram, client⟩ handled).questions.length ≤ 1 →
      ∃ done full sent, r.overDatagrams now client query = some done ∧ done.reply = some sent ∧
        (replyOf ⟨m, .datagram, client⟩ handled).encode? = some full ∧
        Limited (replyOf ⟨m, .datagram, client⟩ handled) (limit m) full sent) ∧
    (∀ handled, m.response = false → r.handled? now ⟨m, .stream, client⟩ = some handled →
      (replyOf ⟨m, .stream, client⟩ handled).questions.length ≤ 1 →
      ∃ done full, r.overStream now client query = some done ∧ done.reply = some full ∧
        (replyOf ⟨m, .stream, client⟩ handled).encode? = some full) ∧
    ∀ (f : Forwarder ρ ζ) (start : Instant) (scope : Scope) (sink : Sink) (request : Request)
      (handled : Handled (Forwarder ρ ζ)), f.next = none →
      Handler.process start scope sink request f = some handled →
      (replyOf request handled).questions.length ≤ 1 := by
  refine ⟨fun hresponse => ?_, fun handled hasks hhandled hone => ?_,
    fun handled hasks hhandled hone => ?_,
    fun f start scope sink request handled hnext h => Forwarder.length_questions_le hnext h⟩
  · refine ⟨⟨none, now, r⟩, ?_, rfl⟩
    simp [overDatagrams, answer, hquery, hresponse]
  · obtain ⟨full, sent, hfull, hsent, hlimited⟩ := exists_datagram hone m
    have hanswer := answer_of_query hquery hasks r now .datagram client
    rw [hhandled] at hanswer
    refine ⟨⟨some sent, handled.finished, { r with handler := handled.handler }⟩, full, sent, ?_,
      rfl, hfull, hlimited⟩
    simp [overDatagrams, hanswer, hsent]
  · obtain ⟨full, hfull⟩ := Message.exists_encode?_of_length hone
    have hanswer := answer_of_query hquery hasks r now .stream client
    rw [hhandled] at hanswer
    refine ⟨⟨some full, handled.finished, { r with handler := handled.handler }⟩, full, ?_, rfl,
      hfull⟩
    simp [overStream, hanswer, hfull]

end Responder

namespace Rehearsal

def verboseReply : Message where
  id := 7
  response := true
  questions := [⟨Name.root, RecordType.ns, 1⟩]
  answers := [⟨Name.root, 99, 1, 60, .octets (List.replicate 600 0),
    by simp [RecordData.fits, show RecordType.layout 99 = .free from rfl, -List.reduceReplicate]⟩]

/-- A handler that answers with 600 octets. -/
def verbose : Responder Handler := ⟨.reply verboseReply ResponseCode.noError, 5000⟩

theorem limited_verbose :
    Message.decode? rootOctets = some rootQuery.message ∧ rootQuery.message.response = false ∧
    (∃ handled, verbose.handled? 0 rootQuery = some handled ∧
      Responder.replyOf rootQuery handled = verboseReply) ∧
    verboseReply.questions.length ≤ 1 ∧
    ∃ done sent short, verbose.overDatagrams 0 none rootOctets = some done ∧
      done.reply = some sent ∧ sent.length ≤ 512 ∧ Message.decode? sent = some short ∧
      short.truncated = true ∧ short.questions = verboseReply.questions ∧ short.Bare := by
  have hquery := decode?_rootOctets
  have hhandled : verbose.handled? 0 rootQuery =
    some ⟨.ok ResponseCode.noError, [verboseReply], 0, verbose.handler⟩ := rfl
  obtain ⟨-, hdatagram, -⟩ :=
    Responder.overDatagrams_limited (ρ := Resolver) (ζ := Empty) hquery verbose 0 none
  obtain ⟨done, full, sent, hdone, hsent, hfull, hlimited⟩ :=
    hdatagram _ rfl hhandled (Nat.le_refl 1)
  have hlong : 512 < full.length := by
    have hlength : verboseReply.encode?.map List.length = some 628 := by decide +kernel
    rw [show verboseReply.encode? = some full from hfull] at hlength
    have := Option.some.inj hlength
    omega
  have habsolute : ∀ q ∈ verboseReply.questions, q.name.absolute = true := by
    intro q hq
    obtain rfl := List.mem_singleton.mp hq
    rfl
  obtain ⟨short, hdecode, -, htruncated, -, -, hquestions, hbare⟩ := hlimited.short hlong
  exact ⟨hquery, rfl, ⟨_, hhandled, rfl⟩, Nat.le_refl 1, done, sent, short, hdone, hsent,
    hlimited.length_le, hdecode, htruncated, hquestions habsolute, hbare⟩

end Rehearsal

end DnsFanout
