/-! Domain names: sequences of labels, the most specific one first. A label has
1 to 63 octets, and a name fits in 255 octets on the wire. -/

namespace DnsFanout

abbrev Bytes := List UInt8

structure Label where
  bytes : Bytes
  ne_nil : bytes ≠ []
  length_le : bytes.length ≤ 63
deriving DecidableEq

namespace Label

def ofBytes? (bytes : Bytes) : Option Label :=
  if h : bytes ≠ [] ∧ bytes.length ≤ 63 then some ⟨bytes, h.1, h.2⟩ else none

/-- A letter A to Z in lower case, any other octet as it is. -/
def lower (b : UInt8) : UInt8 := if 65 ≤ b ∧ b ≤ 90 then b + 32 else b

/-- The octets by which labels are compared when case does not count. -/
def folded (l : Label) : Bytes := l.bytes.map lower

def isWildcard (l : Label) : Bool := l.bytes == [42]

/-- A label on the wire, its length first. -/
def wire (l : Label) : Bytes := l.bytes.length.toUInt8 :: l.bytes

def wireSize (l : Label) : Nat := l.bytes.length + 1

@[simp] theorem length_wire (l : Label) : l.wire.length = l.wireSize := rfl

end Label

/-- The octets that labels and the end mark after them take uncompressed. -/
def wireSize : List Label → Nat
  | [] => 1
  | l :: rest => l.wireSize + wireSize rest

theorem wireSize_nil_le : wireSize [] ≤ 255 := by decide

structure Name where
  labels : List Label
  /-- The name is written with a final dot; it counts for nothing else. -/
  absolute : Bool
  size_le : wireSize labels ≤ 255
deriving DecidableEq

namespace Name

def root : Name := ⟨[], true, wireSize_nil_le⟩

def ofLabels? (labels : List Label) (absolute : Bool) : Option Name :=
  if h : wireSize labels ≤ 255 then some ⟨labels, absolute, h⟩ else none

/-- The name on the wire, written out. -/
def wire (n : Name) : Bytes := n.labels.flatMap Label.wire ++ [0]

def isRoot (n : Name) : Bool := n.labels.isEmpty && n.absolute

def toAbsolute (n : Name) : Name := { n with absolute := true }

/-- The number of labels, a leading `*` left out of the count. -/
def depth (n : Name) : Nat :=
  match n.labels with
  | [] => 0
  | l :: rest => if l.isWildcard then rest.length else rest.length + 1

def folded (n : Name) : List Bytes := n.labels.map Label.folded

/-- The name lies at or below the zone: its last labels are the zone's. -/
def isZoneOf (zone name : Name) : Bool := zone.folded.isSuffixOf name.folded

/-- The comparison of question names: equal depth, and the first is a zone of the
second. -/
def agrees (a b : Name) : Bool := a.depth == b.depth && a.isZoneOf b

end Name

end DnsFanout
