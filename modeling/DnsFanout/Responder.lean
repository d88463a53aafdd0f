import DnsFanout.Handler
import DnsFanout.Message.Wire
import DnsFanout.Net.Frame

/-! Answers to the queries of clients. A query that cannot be read is answered by a
format error as soon as its number can be; a query that a handler fails is answered
by a server failure. Over datagrams a reply too large for the client shrinks to its
header and questions. -/

namespace DnsFanout

/-- A handler and the milliseconds that a query may take. -/
structure Responder (η : Type) where
  handler : η
  timeout : Nat

namespace Responder

/-- The reply to a query of which only the number could be read. -/
def unreadable (id : UInt16) : Message where
  id := id
  response := true
  rcode := ResponseCode.formatError

def serverFailure (request : Request) : Message :=
  { request.reply ResponseCode.serverFailure with recursionAvailable := true }

/-- Header and questions of a reply, marked as truncated. -/
def shorten (reply : Message) : Message where
  id := reply.id
  response := true
  opcode := reply.opcode
  truncated := true
  recursionDesired := reply.recursionDesired
  recursionAvailable := reply.recursionAvailable
  checkingDisabled := reply.checkingDisabled
  rcode := reply.rcode
  questions := reply.questions

/-- What a query leads to: something or nothing to send, and when. -/
structure Answered (η α : Type) where
  reply : Option α
  finished : Instant
  responder : Responder η

/-- The reply that a handler gave, the last that it wrote. -/
def replyOf {η : Type} (request : Request) (done : Handled η) : Message :=
  match done.code, done.written.getLast? with
  | .ok _, some reply => reply
  | _, _ => serverFailure request

variable {η : Type} [Handler η]

/-- The reply to a query and the datagram size that its sender takes; none if the
handler never ends. Responses are not answered. -/
def answer (r : Responder η) (now : Instant) (transport : Transport)
    (client : Option Net.SocketAddress) (query : Bytes) :
    Option (Answered η (Message × UInt16)) :=
  match Message.decode? query with
  | none => some ⟨(leadingWord? query).map fun id => (unreadable id, 512), now, r⟩
  | some message =>
    if message.response then some ⟨none, now, r⟩
    else do
      let request : Request := ⟨message, transport, client⟩
      let done ← Handler.process now { deadline := some (now + r.timeout) } Sink.taking request
        r.handler
      return ⟨some (replyOf request done, message.maxPayload), done.finished,
        { r with handler := done.handler }⟩

/-- The octets to send back over datagrams. -/
def datagram (reply : Message) (limit : UInt16) : Option Bytes := do
  let bytes ← reply.encode?
  if bytes.length ≤ limit.toNat then some bytes else (shorten reply).encode?

def overDatagrams (r : Responder η) (now : Instant) (client : Option Net.SocketAddress)
    (query : Bytes) : Option (Answered η Bytes) := do
  let done ← r.answer now .datagram client query
  return ⟨done.reply.bind fun x => datagram x.1 x.2, done.finished, done.responder⟩

def overStream (r : Responder η) (now : Instant) (client : Option Net.SocketAddress)
    (query : Bytes) : Option (Answered η Bytes) := do
  let done ← r.answer now .stream client query
  return ⟨done.reply.bind fun x => x.1.encode?, done.finished, done.responder⟩

/-- The largest query that is taken from one datagram; the rest is cut off. -/
def maxDatagram : Nat := 4096

/-- One datagram as it comes from the network. -/
def receiveDatagram (r : Responder η) (now : Instant) (client : Option Net.SocketAddress)
    (datagram : Bytes) : Option (Answered η Bytes) :=
  r.overDatagrams now client (datagram.take maxDatagram)

/-- The longest time that a connection may take to bring its next query. -/
def idleLimit : Nat := 10000

/-- What one connection was sent in all, and the responder as the connection leaves
it; none if a handler never ends. -/
structure Served (η : Type) where
  sent : Bytes
  responder : Option (Responder η)

/-- Serves a connection, on which some octets were sent, to its end. Each query is read
when the one before it has been answered; a query without an answer is passed over. -/
def serve (client : Option Net.SocketAddress) (r : Responder η) (now : Instant)
    (inbound : Net.Frame.Inbound) (sent : Bytes) : Served η :=
  match _h : Net.Frame.read inbound with
  | .error _ => ⟨sent, some r⟩
  | .ok query =>
    if now + idleLimit ≤ query.arrival then ⟨sent, some r⟩
    else match r.overStream (max now query.arrival) client query.bytes with
      | none => ⟨sent, none⟩
      | some done =>
        match done.reply with
        | none => serve client done.responder done.finished query.rest sent
        | some reply =>
          match Net.Frame.send reply sent with
          | (.error _, sent) => ⟨sent, some done.responder⟩
          | (.ok (), sent) => serve client done.responder done.finished query.rest sent
termination_by inbound.octets.length
decreasing_by all_goals exact Net.Frame.length_of_read _h

end Responder

end DnsFanout
