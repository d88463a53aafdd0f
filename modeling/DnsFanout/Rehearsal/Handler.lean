import DnsFanout.Handler

/-! A handler that follows a script, for trying a server without a forwarder. -/

namespace DnsFanout.Rehearsal

inductive Handler
  | fail (cause : Failure)
  /-- Gives a code and writes nothing. -/
  | silent (rcode : ResponseCode)
  | reply (message : Message) (rcode : ResponseCode)
  /-- A reply with `count` addresses and `more` further questions. -/
  | records (rcode : ResponseCode) (authoritative : Bool) (count more : Nat)

namespace Handler

/-- The address with number `i`, in 10.0.0.0/16. -/
def address (owner : Name) (i : Nat) : Record where
  owner := owner
  type := RecordType.a
  recordClass := 1
  ttl := 60
  data := .octets [10, 0, (i / 256).toUInt8, i.toUInt8]
  fits := rfl

def recordsReply (request : Request) (rcode : ResponseCode) (authoritative : Bool)
    (count more : Nat) : Message :=
  let owner := (request.question?.map Question.name).getD Name.root
  let reply := request.reply rcode
  { reply with
    authoritative
    questions := reply.questions ++ List.replicate more ⟨owner, RecordType.a, 1⟩
    answers := (List.range count).map (address owner) }

/-- The code, and the message to be written. -/
def plan (request : Request) : Handler → Except Failure (ResponseCode × Option Message)
  | fail cause => .error cause
  | silent rcode => .ok (rcode, none)
  | reply message rcode => .ok (rcode, some message)
  | records rcode authoritative count more =>
    .ok (rcode, some (recordsReply request rcode authoritative count more))

/-- A reply that the sink refuses fails the query. -/
def process (now : Instant) (sink : Sink) (request : Request) (h : Handler) :
    DnsFanout.Handled Handler :=
  match h.plan request with
  | .error cause => ⟨.error cause, [], now, h⟩
  | .ok (code, none) => ⟨.ok code, [], now, h⟩
  | .ok (code, some message) =>
    match sink [] message with
    | none => ⟨.ok code, [message], now, h⟩
    | some cause => ⟨.error cause, [], now, h⟩

end Handler

instance : DnsFanout.Handler Handler where
  name _ := "scripted"
  process now _ sink request h := some (h.process now sink request)

end DnsFanout.Rehearsal
