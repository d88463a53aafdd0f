import DnsFanout.Message.Basic
import DnsFanout.Net.Address
import DnsFanout.Transport

/-! A query as the forwarder sees it, and which replies belong to it. -/

namespace DnsFanout

structure Request where
  message : Message
  transport : Transport
  client : Option Net.SocketAddress := none

namespace Request

def question? (r : Request) : Option Question := r.message.questions.head?

/-- The reply answers this query: same number, marked as a response, and one
question, which is ours. -/
def matchesReply (r : Request) (reply : Message) : Bool :=
  match r.question?, reply.questions with
  | some asked, [answered] =>
    reply.id == r.message.id && reply.response && answered.type == asked.type &&
      answered.questionClass == asked.questionClass && answered.name.agrees asked.name
  | _, _ => false

/-- A reply to this query that carries no records. -/
def reply (r : Request) (code : ResponseCode) : Message where
  id := r.message.id
  response := true
  opcode := r.message.opcode
  recursionDesired := r.message.recursionDesired
  checkingDisabled := r.message.checkingDisabled
  rcode := code
  questions := r.question?.toList

def formatError (r : Request) : Message := r.reply ResponseCode.formatError

end Request

end DnsFanout
