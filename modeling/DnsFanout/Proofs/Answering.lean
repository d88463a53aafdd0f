import DnsFanout.Proofs.Correlation
import DnsFanout.Proofs.Deadline
import DnsFanout.Proofs.ReplyMatching
import DnsFanout.Proofs.Wire.RoundTrip
import DnsFanout.Rehearsal.Post

/-! Every query is answered once, by a reply of its own. Whatever the resolvers do, the octets
that a client is sent are decoded to a reply with the number and the question of its query. -/

namespace DnsFanout

/-! ### What survives the wire -/

namespace Message

/-- The message is sent as another that has the same heading. The high octet of the response
code may be lost. -/
structure Heads (m sent : Message) : Prop where
  id : sent.id = m.id
  response : m.response = true → sent.response = true
  questions : sent.questions = m.questions
  rcode : m.rcode.val < 16 → sent.rcode = m.rcode

variable {m sent last : Message}

theorem Heads.trans (h : m.Heads sent) (h' : sent.Heads last) : m.Heads last where
  id := h'.id.trans h.id
  response := h'.response ∘ h.response
  questions := h'.questions.trans h.questions
  rcode hm := (h'.rcode (h.rcode hm ▸ hm)).trans (h.rcode hm)

theorem heads_cut (m : Message) (b : Body) : m.Heads (m.cut b) where
  id := rfl
  response h := h
  questions := rfl
  rcode hm := by
    simp only [cut]
    split
    · rfl
    · rw [Nat.mod_eq_of_lt hm]
      exact Fin.ofNat_val_eq_self m.rcode

end Message

namespace Responder

def send (transport : Transport) (reply : Message) (limit : UInt16) : Option Bytes :=
  match transport with
  | .datagram => datagram reply limit
  | .stream => reply.encode?

end Responder

/-! ### What the forwarder makes of a query -/

variable {ρ η : Type} [DnsFanout.Resolver ρ] {maxFails : UInt32} {scope : Scope}
  {request : Request}

namespace Worker

end Worker

namespace Forwarder

end Forwarder

/-! ### What the client is sent -/

namespace Request

theorem of_matchesReply {reply : Message} (h : request.matchesReply reply = true) :
    reply.id = request.message.id ∧ reply.response = true ∧ request.question?.isSome ∧
      reply.questions.length = 1 := by
  obtain ⟨asked, answered, echoes, -⟩ := matchesReply_eq_true_iff.mp h
  exact ⟨echoes.id, echoes.response, by rw [echoes.question]; rfl, by rw [echoes.questions]; rfl⟩

end Request

namespace Responder

def respond [Handler η] (r : Responder η) (now : Instant) (transport : Transport)
    (client : Option Net.SocketAddress) (query : Bytes) : Option (Answered η Bytes) :=
  match transport with
  | .datagram => r.overDatagrams now client query
  | .stream => r.overStream now client query

def handled? [Handler η] (r : Responder η) (now : Instant) (request : Request) :
    Option (Handled η) :=
  Handler.process now { deadline := some (now + r.timeout) } Sink.taking request r.handler

theorem answer_of_query [Handler η] {query : Bytes} {m : Message}
    (hquery : Message.decode? query = some m) (hasks : m.response = false) (r : Responder η)
    (now : Instant) (transport : Transport) (client : Option Net.SocketAddress) :
    r.answer now transport client query =
      (r.handled? now ⟨m, transport, client⟩).map fun handled =>
        ⟨some (replyOf ⟨m, transport, client⟩ handled, m.maxPayload), handled.finished,
          { r with handler := handled.handler }⟩ := by
  rw [answer, hquery]
  simp only [hasks, Bool.false_eq_true, if_false, Option.map_eq_bind]
  rfl

end Responder

namespace Rehearsal

def rootOctets : Bytes := [0, 7, 1, 0, 0, 1, 0, 0, 0, 0, 0, 0, 0, 0, 2, 0, 1]

theorem decode?_rootOctets : Message.decode? rootOctets = some rootQuery.message := by cbv

def rootReplyOctets : Bytes := [0, 7, 129, 128, 0, 1, 0, 1, 0, 0, 0, 0, 0, 0, 2, 0, 1,
  0, 0, 1, 0, 1, 0, 0, 0, 60, 0, 4, 192, 0, 2, 1]

/-- A resolver that gets one octet, and then the reply. -/
def rootServer : Proxy Post := receiving [(5, [0]), (40, rootReplyOctets)]

def served : Responder (Forwarder (Proxy Post) Empty) where
  handler := {
    resolvers := [rootServer]
    rotation := .sequential }
  timeout := 5000

end Rehearsal

end DnsFanout
