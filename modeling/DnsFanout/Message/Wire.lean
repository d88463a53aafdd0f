import DnsFanout.Failure
import DnsFanout.Message.Decoder
import DnsFanout.Message.Encoder

/-! Encoding and decoding of messages as steps of a query, with the failures that
end it. -/

namespace DnsFanout.Message

def unreadable : Failure := .invalidMessage "Failed to parse DNS response"

def unwritable : Failure := .invalidMessage "Failed to serialize DNS message"

def encode (m : Message) : Except Failure Bytes :=
  match m.encode? with
  | some bytes => .ok bytes
  | none => .error unwritable

def decode (bytes : Bytes) : Except Failure Message :=
  match decode? bytes with
  | some m => .ok m
  | none => .error unreadable

end DnsFanout.Message
