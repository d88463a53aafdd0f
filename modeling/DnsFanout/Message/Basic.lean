import DnsFanout.Name.Basic

/-! DNS messages. What a record may carry depends on its type, and a record holds
the proof that its data fits; a message is therefore never malformed, only one
that a resolver would not have sent. -/

namespace DnsFanout

/-- The number of a record type. -/
abbrev RecordType := UInt16

namespace RecordType

def a : RecordType := 1
def ns : RecordType := 2
def cname : RecordType := 5
def soa : RecordType := 6
def ptr : RecordType := 12
def mx : RecordType := 15
def txt : RecordType := 16
def sig : RecordType := 24
def aaaa : RecordType := 28
def opt : RecordType := 41
def tsig : RecordType := 250

/-- The types whose records hold an address. -/
def isAddress (t : RecordType) : Bool := t == a || t == aaaa

/-- Types that no section but the additional one may hold. -/
def isAdditionalOnly (t : RecordType) : Bool := t == sig || t == opt || t == tsig

end RecordType

/-- How the data of a record is laid out. -/
inductive Layout
  /-- The type stands for no data: zero, and the questions for more than one type. -/
  | refused
  | fixed (size : Nat)
  /-- Strings of at most 255 octets, each led by its length. -/
  | strings
  | host
  | exchange
  | authority
  /-- Octets without a known meaning. -/
  | free
deriving DecidableEq

def RecordType.layout (t : RecordType) : Layout :=
  if t = 0 ∨ t = 251 ∨ t = 252 ∨ t = 255 then .refused
  else if t = a then .fixed 4
  else if t = aaaa then .fixed 16
  else if t = ns ∨ t = cname ∨ t = ptr then .host
  else if t = mx then .exchange
  else if t = soa then .authority
  else if t = txt then .strings
  else .free

/-- The octets are strings, each led by its length, and nothing more. -/
def areStrings : Bytes → Bool
  | [] => true
  | n :: rest => n.toNat ≤ rest.length && areStrings (rest.drop n.toNat)
termination_by bytes => bytes.length

inductive RecordData
  | empty
  | octets (bytes : Bytes)
  | host (name : Name)
  | exchange (preference : UInt16) (host : Name)
  | authority (primary contact : Name) (serial refresh retry expire minimum : UInt32)
deriving DecidableEq

/-- Data that a record of the type may carry. Every type may go without. -/
def RecordData.fits (t : RecordType) : RecordData → Bool
  | empty => true
  | octets bytes =>
    bytes ≠ [] && bytes.length < 65536 && match t.layout with
      | .fixed size => bytes.length == size
      | .strings => areStrings bytes
      | .free => true
      | _ => false
  | host _ => t.layout = .host
  | exchange _ _ => t.layout = .exchange
  | authority .. => t.layout = .authority

structure Record where
  owner : Name
  type : RecordType
  recordClass : UInt16
  ttl : UInt32
  data : RecordData
  fits : data.fits type = true
deriving DecidableEq

structure Question where
  name : Name
  type : RecordType
  questionClass : UInt16
deriving DecidableEq

/-- The extension record of a message. -/
structure Edns where
  payload : UInt16 := 512
  version : UInt8 := 0
  flags : UInt16 := 0
  options : List (UInt16 × Bytes) := []
  payload_ge : 512 ≤ payload.toNat := by decide
deriving DecidableEq

/-- The sender takes signatures along. -/
def Edns.wantsSignatures (e : Edns) : Bool := e.flags.toNat / 32768 == 1

/-- The kind of a query, four bits wide. -/
abbrev Opcode := Fin 16

namespace Opcode

def query : Opcode := 0

def ofNat (n : Nat) : Opcode := Fin.ofNat 16 n

end Opcode

abbrev ResponseCode := Fin 4096

namespace ResponseCode

def noError : ResponseCode := 0
def formatError : ResponseCode := 1
def serverFailure : ResponseCode := 2

def ofNat (n : Nat) : ResponseCode := Fin.ofNat 4096 n

end ResponseCode

structure Message where
  id : UInt16
  response : Bool := false
  opcode : Opcode := Opcode.query
  authoritative : Bool := false
  truncated : Bool := false
  recursionDesired : Bool := false
  recursionAvailable : Bool := false
  authenticData : Bool := false
  checkingDisabled : Bool := false
  rcode : ResponseCode := ResponseCode.noError
  questions : List Question := []
  answers : List Record := []
  authority : List Record := []
  additional : List Record := []
  edns : Option Edns := none
deriving DecidableEq

namespace Message

/-- The datagram size that the sender takes; 512 octets unless it says more. -/
def maxPayload (m : Message) : UInt16 :=
  match m.edns with
  | some e => e.payload
  | none => 512

def addresses (m : Message) : List Record := m.answers.filter (·.type.isAddress)

/-- A question for the name servers of the root, by which resolvers are probed. -/
def probe (id : UInt16) : Message where
  id := id
  recursionDesired := true
  questions := [⟨Name.root, RecordType.ns, 1⟩]

end Message

end DnsFanout
