import DnsFanout.Message.Basic
import DnsFanout.Message.Word

/-! Reading messages from the wire. A pointer leads to octets before the name that
holds it, and reading on from there must end before that name; so no name runs in
a circle. Octets after the message are ignored. -/

namespace DnsFanout

/-- A place in a message and the octets from there on. -/
structure Cursor where
  position : Nat
  rest : Bytes

/-- A step of the decoder: what it reads, and where it ends. -/
abbrev Take (α : Type) := Cursor → Option (α × Cursor)

namespace Cursor

def octets (n : Nat) : Take Bytes := fun c =>
  if n ≤ c.rest.length then some (c.rest.take n, ⟨c.position + n, c.rest.drop n⟩) else none

def octet : Take UInt8 := fun c =>
  match c.rest with
  | b :: rest => some (b, ⟨c.position + 1, rest⟩)
  | _ => none

def word16 : Take UInt16 := fun c =>
  match c.rest with
  | a :: b :: rest => some (ofWord16 a b, ⟨c.position + 2, rest⟩)
  | _ => none

def word32 : Take UInt32 := fun c =>
  match c.rest with
  | x :: y :: z :: w :: rest => some (ofWord32 x y z w, ⟨c.position + 4, rest⟩)
  | _ => none

/-- The labels of a name. `start` is where this part of the name begins; a part
that a pointer led to has to end before `limit`. -/
def labels (message : Bytes) (start : Nat) (limit : Option Nat) :
    Cursor → Option (List Label × Cursor)
  | ⟨_, []⟩ => none
  | ⟨position, b :: rest⟩ =>
    if limit.any (· ≤ position) then none
    else if b = 0 then some ([], ⟨position + 1, rest⟩)
    else if b < 64 then
      if rest.length < b.toNat then none
      else do
        let l ← Label.ofBytes? (rest.take b.toNat)
        let (ls, c) ← labels message start limit ⟨position + 1 + b.toNat, rest.drop b.toNat⟩
        return (l :: ls, c)
    else if b < 192 then none
    else match rest with
      | [] => none
      | low :: rest =>
        let target := (b.toNat - 192) * 256 + low.toNat
        if target < start then do
          let (ls, _) ← labels message target (some start) ⟨target, message.drop target⟩
          return (ls, ⟨position + 2, rest⟩)
        else none
termination_by c => (start, c.rest.length)
decreasing_by
  · simp only [List.length_cons, List.length_drop]
    exact Prod.Lex.right _ (by omega)
  · exact Prod.Lex.left _ _ (by assumption)

def name (message : Bytes) : Take Name := fun c => do
  let (ls, c') ← labels message c.position none c
  return (← Name.ofLabels? ls true, c')

/-- The data of a record; `size` octets are known to follow. -/
def data (message : Bytes) (type : RecordType) (size : Nat) : Take RecordData := fun c =>
  if size = 0 then some (.empty, c)
  else match type.layout with
    | .host => do
      let (n, c) ← name message c
      return (.host n, c)
    | .exchange => do
      let (preference, c) ← word16 c
      let (n, c) ← name message c
      return (.exchange preference n, c)
    | .authority => do
      let (primary, c) ← name message c
      let (contact, c) ← name message c
      let (serial, c) ← word32 c
      let (refresh, c) ← word32 c
      let (retry, c) ← word32 c
      let (expire, c) ← word32 c
      let (minimum, c) ← word32 c
      return (.authority primary contact serial refresh retry expire minimum, c)
    | _ => do
      let (bytes, c) ← octets size c
      return (.octets bytes, c)

/-- The head of a record, before the data. -/
structure RecordHead where
  owner : Name
  type : RecordType
  recordClass : UInt16
  ttl : UInt32
  size : Nat

/-- The data must be there. -/
def recordHead (message : Bytes) : Take RecordHead := fun c => do
  let (owner, c) ← name message c
  let (type, c) ← word16 c
  let (recordClass, c) ← word16 c
  let (ttl, c) ← word32 c
  let (size, c) ← word16 c
  if c.rest.length < size.toNat then none
  else return (⟨owner, type, recordClass, ttl, size.toNat⟩, c)

/-- The data of a record takes exactly the octets announced for it. -/
def recordBody (message : Bytes) (head : RecordHead) : Take Record := fun c => do
  let (d, c') ← data message head.type head.size c
  if c'.position ≠ c.position + head.size then none
  else if h : d.fits head.type = true then
    return (⟨head.owner, head.type, head.recordClass, head.ttl, d, h⟩, c')
  else none

/-- Options of the extension record in `bytes`, the whole of its data. An option
that is cut off discards them all; one longer than the whole data is refused, and
so is an odd octet where a number should be. -/
def options (size : Nat) : Bytes → Option (Option (List (UInt16 × Bytes)))
  | [] => some (some [])
  | [_, _] => some none
  | a :: b :: c :: d :: rest =>
    let length := (ofWord16 c d).toNat
    if size < length then none
    else if rest.length < length then some none
    else do
      let more ← options size (rest.drop length)
      return more.map ((ofWord16 a b, rest.take length) :: ·)
  | _ => none
termination_by bytes => bytes.length
decreasing_by
  simp only [List.length_drop, List.length_cons]
  omega

/-- The extension record, with the high octet of the response code. -/
def edns (head : RecordHead) : Take (Nat × Edns) := fun c =>
  if head.owner.labels ≠ [] then none
  else do
    let (bytes, c) ← octets head.size c
    let opts ← options head.size bytes
    let payload := if head.recordClass.toNat < 512 then 512 else head.recordClass
    return ((head.ttl.toNat / 16777216,
      { payload
        version := (head.ttl.toNat / 65536).toUInt8
        flags := head.ttl.toNat.toUInt16
        options := opts.getD []
        payload_ge := by simp only [payload]; split <;> simp_all }), c)

def question (message : Bytes) : Take Question := fun c => do
  let (n, c) ← name message c
  let (type, c) ← word16 c
  let (questionClass, c) ← word16 c
  return (⟨n, type, questionClass⟩, c)

/-- As many items as were announced. -/
def repeated {α : Type} (item : Take α) : Nat → Take (List α)
  | 0, c => some ([], c)
  | n + 1, c => do
    let (x, c) ← item c
    let (xs, c) ← repeated item n c
    return (x :: xs, c)

/-- A record of the answer or authority section. -/
def plainRecord (message : Bytes) : Take Record := fun c => do
  let (head, c) ← recordHead message c
  if head.type.isAdditionalOnly then none else recordBody message head c

/-- The additional section: records, and at most one extension record among them. -/
def additional (message : Bytes) (found : Option (Nat × Edns)) :
    Nat → Take (List Record × Option (Nat × Edns))
  | 0, c => some (([], found), c)
  | n + 1, c => do
    let (head, c) ← recordHead message c
    if head.type = RecordType.opt then
      let (e, c) ← edns head c
      if found.isSome then none else additional message (some e) n c
    else
      let (r, c) ← recordBody message head c
      let ((rs, found), c) ← additional message found n c
      return ((r :: rs, found), c)

end Cursor

namespace Message

/-- The bit of an octet with the value `place`. -/
def bitAt (b : UInt8) (place : Nat) : Bool := b.toNat / place % 2 == 1

def decode? (message : Bytes) : Option Message := do
  let (id, c) ← Cursor.word16 ⟨0, message⟩
  let (high, c) ← Cursor.octet c
  let (low, c) ← Cursor.octet c
  let (questionCount, c) ← Cursor.word16 c
  let (answerCount, c) ← Cursor.word16 c
  let (authorityCount, c) ← Cursor.word16 c
  let (additionalCount, c) ← Cursor.word16 c
  let (questions, c) ← Cursor.repeated (Cursor.question message) questionCount.toNat c
  let (answers, c) ← Cursor.repeated (Cursor.plainRecord message) answerCount.toNat c
  let (authority, c) ← Cursor.repeated (Cursor.plainRecord message) authorityCount.toNat c
  let ((more, extension), _) ← Cursor.additional message none additionalCount.toNat c
  let rcodeHigh := (extension.map (·.1)).getD 0
  return {
    id, questions, answers, authority
    response := bitAt high 128
    opcode := Opcode.ofNat (high.toNat / 8)
    authoritative := bitAt high 4
    truncated := bitAt high 2
    recursionDesired := bitAt high 1
    recursionAvailable := bitAt low 128
    authenticData := bitAt low 32
    checkingDisabled := bitAt low 16
    rcode := ResponseCode.ofNat (rcodeHigh * 16 + low.toNat % 16)
    additional := more
    edns := extension.map (·.2) }

end Message

/-- Reads data that stands alone. -/
def RecordData.ofWire? (type : RecordType) (bytes : Bytes) : Option RecordData := do
  let (d, c) ← Cursor.data bytes type bytes.length ⟨0, bytes⟩
  if c.rest = [] ∧ d.fits type then some d else none

end DnsFanout
