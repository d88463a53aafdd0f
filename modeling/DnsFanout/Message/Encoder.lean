import DnsFanout.Message.Basic
import DnsFanout.Message.Word

/-! Messages on the wire. A name is written out up to the longest ending that has
been written before, and a pointer stands for that ending. No message exceeds
65535 octets: a record that does not fit ends its section, and the message is
marked as truncated. -/

namespace DnsFanout

/-- Data in wire form, with the names in it written out. -/
def RecordData.wire : RecordData → Bytes
  | empty => []
  | octets bytes => bytes
  | host n => n.wire
  | exchange preference n => word16 preference.toNat ++ n.wire
  | authority primary contact serial refresh retry expire minimum =>
    primary.wire ++ contact.wire ++ word32 serial.toNat ++ word32 refresh.toNat ++
      word32 retry.toNat ++ word32 expire.toNat ++ word32 minimum.toNat

/-- What the encoder knows of the octets before it: how many they are, and where
in them sequences of labels begin that run to the end of a name. -/
structure Written where
  offset : Nat
  endings : List (List Label × Nat)

/-- A step of the encoder gives the octets it adds, or nothing if they do not
fit. -/
abbrev Emit := Written → Option (Bytes × Written)

namespace Emit

def maxSize : Nat := 65535

def octets (bytes : Bytes) : Emit := fun w =>
  if w.offset + bytes.length ≤ maxSize then
    some (bytes, { w with offset := w.offset + bytes.length })
  else none

def andThen (first second : Emit) : Emit := fun w => do
  let (x, w) ← first w
  let (y, w) ← second w
  return (x ++ y, w)

instance : Append Emit := ⟨andThen⟩

/-- The octets of `body`, after their number. -/
def sized (body : Emit) : Emit := fun w => do
  let (_, w) ← octets [0, 0] w
  let (x, w) ← body w
  return (word16 x.length ++ x, w)

/-- Writes labels from the offset on, and remembers each ending that is new.
Endings are remembered only while the name, written out, ends before a pointer's
reach does. -/
def compress (reach : Bool) : List Label → Written → Bytes × Written
  | [], w => ([0], { w with offset := w.offset + 1 })
  | l :: rest, w =>
    match w.endings.lookup (l :: rest) with
    | some place => (word16 (0xC000 + place), { w with offset := w.offset + 2 })
    | none =>
      let endings := if reach then (l :: rest, w.offset) :: w.endings else w.endings
      let (bytes, w) := compress reach rest ⟨w.offset + l.wireSize, endings⟩
      (l.wire ++ bytes, w)

/-- The labels have to fit uncompressed. -/
def name (n : Name) : Emit := fun w =>
  let stop := w.offset + (n.labels.flatMap Label.wire).length
  if maxSize < stop then none
  else
    let (bytes, w) := compress (stop < 0x3FFF) n.labels w
    if maxSize < w.offset then none else some (bytes, w)

def data : RecordData → Emit
  | .empty => octets []
  | .octets bytes => octets bytes
  | .host n => name n
  | .exchange preference n => octets (word16 preference.toNat) ++ name n
  | .authority primary contact serial refresh retry expire minimum =>
    name primary ++ name contact ++ octets (word32 serial.toNat) ++
      octets (word32 refresh.toNat) ++ octets (word32 retry.toNat) ++
      octets (word32 expire.toNat) ++ octets (word32 minimum.toNat)

def record (r : Record) : Emit :=
  name r.owner ++ octets (word16 r.type.toNat) ++ octets (word16 r.recordClass.toNat) ++
    octets (word32 r.ttl.toNat) ++ sized (data r.data)

def question (q : Question) : Emit :=
  name q.name ++ octets (word16 q.type.toNat) ++ octets (word16 q.questionClass.toNat)

def questions : List Question → Emit
  | [] => octets []
  | q :: rest => question q ++ questions rest

def option (code : UInt16) (value : Bytes) : Emit :=
  octets (word16 code.toNat) ++ octets (word16 value.length) ++ octets value

def options : List (UInt16 × Bytes) → Emit
  | [] => octets []
  | (code, value) :: rest => option code value ++ options rest

/-- The extension record, which also takes the high octet of the response code. -/
def edns (rcode : ResponseCode) (e : Edns) : Emit :=
  name Name.root ++ octets (word16 RecordType.opt.toNat) ++ octets (word16 e.payload.toNat) ++
    octets [(rcode.val / 16).toUInt8, e.version] ++ octets (word16 e.flags.toNat) ++
    sized (options e.options)

/-- The part of a section that fits. -/
structure Section where
  bytes : Bytes
  count : Nat
  complete : Bool
  written : Written

/-- Items in order; the first that does not fit ends the section. -/
def upTo : List Emit → Written → Section
  | [], w => ⟨[], 0, true, w⟩
  | item :: rest, w =>
    match item w with
    | none => ⟨[], 0, false, w⟩
    | some (bytes, w) =>
      let more := upTo rest w
      { more with bytes := bytes ++ more.bytes, count := more.count + 1 }

end Emit

namespace Message

def flagOctets (m : Message) (truncated : Bool) : Bytes :=
  let bit (b : Bool) (place : Nat) : Nat := if b then place else 0
  [(bit m.response 128 + m.opcode.val * 8 + bit m.authoritative 4 + bit truncated 2 +
      bit m.recursionDesired 1).toUInt8,
    (bit m.recursionAvailable 128 + bit m.authenticData 32 + bit m.checkingDisabled 16 +
      m.rcode.val % 16).toUInt8]

/-- The wire form; none when the questions alone do not fit. -/
def encode? (m : Message) : Option Bytes := do
  let (questions, w) ← Emit.questions m.questions ⟨12, []⟩
  let answers := Emit.upTo (m.answers.map Emit.record) w
  let authority := Emit.upTo (m.authority.map Emit.record) answers.written
  let additional := Emit.upTo (m.additional.map Emit.record) authority.written
  let edns := Emit.upTo (m.edns.toList.map (Emit.edns m.rcode)) additional.written
  let complete := answers.complete && authority.complete && additional.complete && edns.complete
  return word16 m.id.toNat ++ m.flagOctets (m.truncated || !complete) ++
    word16 m.questions.length ++ word16 answers.count ++ word16 authority.count ++
    word16 (additional.count + edns.count) ++
    questions ++ answers.bytes ++ authority.bytes ++ additional.bytes ++ edns.bytes

end Message

end DnsFanout
