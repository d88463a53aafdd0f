import DnsFanout.Text.Number

/-! Internet addresses of both families, with or without a service number, and
their text. An IPv6 address is written with its longest run of zero groups left
out; an IPv4 address inside it keeps its dotted form only behind `::ffff:`. -/

namespace DnsFanout.Net

open Text

structure IPv4 where
  a : UInt8
  b : UInt8
  c : UInt8
  d : UInt8
deriving DecidableEq, Repr

structure IPv6 where
  groups : List UInt16
  length_eq : groups.length = 8
deriving DecidableEq, Repr

inductive IPAddress
  | v4 (address : IPv4)
  | v6 (address : IPv6)
deriving DecidableEq, Repr

/-- An address and the number of the service on it. -/
structure SocketAddress where
  host : IPAddress
  service : UInt16
deriving DecidableEq, Repr

def IPAddress.isV6 : IPAddress → Bool
  | .v4 _ => false
  | .v6 _ => true

/-! ### Writing -/

def IPv4.toChars (ip : IPv4) : List Char :=
  digits 10 ip.a.toNat ++ '.' :: digits 10 ip.b.toNat ++ '.' :: digits 10 ip.c.toNat ++
    '.' :: digits 10 ip.d.toNat

/-- The number of zero groups in front. -/
def leadingZeros (groups : List UInt16) : Nat := (groups.takeWhile (· == 0)).length

/-- Where the longest run of zero groups starts, and its length; the first of
several longest ones. -/
def longestZeroRun (groups : List UInt16) : Nat × Nat :=
  (List.range groups.length).foldl
    (fun best i => if best.2 < leadingZeros (groups.drop i) then
      (i, leadingZeros (groups.drop i)) else best) (0, 0)

def joinGroups (groups : List UInt16) : List Char :=
  [':'].intercalate (groups.map fun g => digits 16 g.toNat)

/-- The IPv4 address that two groups hold. -/
def IPv4.ofGroups (high low : UInt16) : IPv4 :=
  ⟨(high / 256).toUInt8, high.toUInt8, (low / 256).toUInt8, low.toUInt8⟩

def IPv4.toGroups (ip : IPv4) : List UInt16 :=
  [ip.a.toUInt16 * 256 + ip.b.toUInt16, ip.c.toUInt16 * 256 + ip.d.toUInt16]

def IPv6.toChars (ip : IPv6) : List Char :=
  match ip.groups with
  | [0, 0, 0, 0, 0, 0xFFFF, high, low] => "::ffff:".toList ++ (IPv4.ofGroups high low).toChars
  | groups =>
    let (start, length) := longestZeroRun groups
    if length < 2 then joinGroups groups
    else joinGroups (groups.take start) ++ ':' :: ':' :: joinGroups (groups.drop (start + length))

def IPAddress.toChars : IPAddress → List Char
  | .v4 ip => ip.toChars
  | .v6 ip => ip.toChars

def IPAddress.text (ip : IPAddress) : String := String.ofList ip.toChars

/-- An IPv6 address stands in brackets before a service number. -/
def SocketAddress.toChars (s : SocketAddress) : List Char :=
  (match s.host with
    | .v4 ip => ip.toChars
    | .v6 ip => '[' :: ip.toChars ++ [']']) ++ ':' :: digits 10 s.service.toNat

def SocketAddress.text (s : SocketAddress) : String := String.ofList s.toChars

/-! ### Reading -/

/-- A decimal number below 256 without a leading zero, and the text after it. -/
def readOctet (s : List Char) : Option (UInt8 × List Char) :=
  let ds := s.takeWhile (isDigit 10)
  let n := ofDigits 10 ds
  if ds = [] ∨ 3 < ds.length ∨ 255 < n ∨ (ds.head? = some '0' ∧ 1 < ds.length) then none
  else some (n.toUInt8, s.dropWhile (isDigit 10))

/-- One to four hexadecimal digits, and the text after them. -/
def readGroup (s : List Char) : Option (UInt16 × List Char) :=
  let ds := s.takeWhile (isDigit 16)
  if ds = [] ∨ 4 < ds.length then none
  else some ((ofDigits 16 ds).toUInt16, s.dropWhile (isDigit 16))

/-- The text after `c`, if it stands in front. -/
def readChar (c : Char) : List Char → Option (List Char)
  | [] => none
  | x :: rest => if x = c then some rest else none

def readIPv4 (s : List Char) : Option (IPv4 × List Char) := do
  let (a, s) ← readOctet s
  let (b, s) ← readOctet (← readChar '.' s)
  let (c, s) ← readOctet (← readChar '.' s)
  let (d, s) ← readOctet (← readChar '.' s)
  return (⟨a, b, c, d⟩, s)

/-- Groups with colons between them. -/
structure GroupRun where
  groups : List UInt16
  /-- The run ends in a dotted address, which counts as two groups. -/
  dotted : Bool
  rest : List Char

/-- At most `room` groups. A colon leads every group but the `first`; where two
groups fit a dotted address may stand, and it is the last. -/
def readGroups : (room : Nat) → (first : Bool) → List Char → GroupRun
  | 0, _, s => ⟨[], false, s⟩
  | room + 1, first, s =>
    match if first then some s else readChar ':' s with
    | none => ⟨[], false, s⟩
    | some t =>
      match if room = 0 then none else readIPv4 t with
      | some (ip, rest) => ⟨ip.toGroups, true, rest⟩
      | none =>
        match readGroup t with
        | none => ⟨[], false, s⟩
        | some (g, rest) =>
          let more := readGroups room false rest
          { more with groups := g :: more.groups }

/-- The address whose first groups are `head` and whose last are `tail`, with
zeros between. -/
def IPv6.spread? (head tail : List UInt16) : Option IPv6 :=
  let groups := head ++ List.replicate (8 - head.length - tail.length) 0 ++ tail
  if h : groups.length = 8 then some ⟨groups, h⟩ else none

def readIPv6 (s : List Char) : Option (IPv6 × List Char) := do
  let head := readGroups 8 true s
  if head.groups.length = 8 then
    return (← IPv6.spread? head.groups [], head.rest)
  if head.dotted then none
  let s ← readChar ':' (← readChar ':' head.rest)
  let tail := readGroups (8 - (head.groups.length + 1)) true s
  return (← IPv6.spread? head.groups tail.groups, tail.rest)

/-- A whole text that is one address. -/
def IPAddress.parse? (s : List Char) : Option IPAddress :=
  match readIPv4 s with
  | some (ip, rest) => if rest = [] then some (.v4 ip) else none
  | none =>
    match readIPv6 s with
    | some (ip, rest) => if rest = [] then some (.v6 ip) else none
    | none => none

/-- An address and its service number, both written out. -/
def SocketAddress.parse? (s : List Char) : Option SocketAddress :=
  match s with
  | '[' :: rest => do
    let (ip, rest) ← readIPv6 rest
    let rest ← readChar ':' (← readChar ']' rest)
    let n ← readNat? 10 rest
    if n < 65536 then some ⟨.v6 ip, n.toUInt16⟩ else none
  | _ => do
    let (ip, rest) ← readIPv4 s
    let n ← readNat? 10 (← readChar ':' rest)
    if n < 65536 then some ⟨.v4 ip, n.toUInt16⟩ else none

end DnsFanout.Net
