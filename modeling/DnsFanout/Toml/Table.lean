/-! Values of a TOML document, and how tables grow. A table remembers how it came
to be, since that decides what may be added to it later. -/

namespace DnsFanout.Toml

inductive Origin
  /-- Opened by a header of its own. -/
  | header
  /-- Lies on the path of a header. -/
  | implied
  /-- Lies on the path of a dotted key. -/
  | dotted
  /-- Written in braces, and complete. -/
  | closed
deriving DecidableEq, Repr

inductive Value
  | string (text : String)
  | integer (n : Int)
  /-- A number with a point or an exponent; its digits may exceed every float. -/
  | float (inRange : Bool)
  | boolean (b : Bool)
  | moment
  /-- An array of tables grows by headers; a listed one is complete. -/
  | array (ofTables : Bool) (items : List Value)
  | table (origin : Origin) (entries : List (String × Value))

/-- Keys with their values, in the order of their first mention; no key twice. -/
abbrev Table := List (String × Value)

namespace Table

/-- Puts `f v` in place of the value `v` of `key`; a new key comes last. -/
def update (key : String) (f : Option Value → Option Value) : Table → Option Table
  | [] => (f none).map fun v => [(key, v)]
  | (k, v) :: rest =>
    if k = key then (f (some v)).map fun v => (k, v) :: rest
    else (update key f rest).map ((k, v) :: ·)

/-- Changes the last of some tables. -/
def onLast (f : Table → Option Table) : List Value → Option (List Value)
  | [] => none
  | [.table origin entries] => (f entries).map fun entries => [.table origin entries]
  | [_] => none
  | v :: rest => (onLast f rest).map (v :: ·)

/-- Whether a dotted key may go through a table with `left` parts to come. Its last
table has to be one that dotted keys made. -/
def mayPass (left : Nat) : Origin → Bool
  | .dotted => true
  | .implied => 1 < left
  | .header | .closed => false

/-- Gives the key at the end of a path its value. A key takes a value once. Like a
table that headers imply, the last of an array of tables may be gone through, but
is not the last on the way. -/
def assign (value : Value) : List String → Table → Option Table
  | [] => fun _ => none
  | [key] => update key fun
    | none => some value
    | some _ => none
  | key :: path => update key fun
    | none => (assign value path []).map (.table .dotted)
    | some (.table origin entries) =>
      if mayPass path.length origin then (assign value path entries).map (.table origin)
      else none
    | some (.array true items) =>
      if 1 < path.length then (onLast (assign value path) items).map (.array true) else none
    | some _ => none

def assignAll (pairs : List (List String × Value)) (t : Table) : Option Table :=
  pairs.foldlM (fun t (path, value) => assign value path t) t

/-- Changes the value at the end of a header's path. The path goes through tables
that are not closed, and through the last table of an array of them. -/
def onPath (f : Option Value → Option Value) : List String → Table → Option Table
  | [] => fun _ => none
  | [key] => update key f
  | key :: path => update key fun
    | none => (onPath f path []).map (.table .implied)
    | some (.table origin entries) =>
      if origin = .closed then none else (onPath f path entries).map (.table origin)
    | some (.array true items) => (onLast (onPath f path) items).map (.array true)
    | some _ => none

/-- A header opens a table that has not been mentioned, or only implied. -/
def openWith (pairs : List (List String × Value)) : Option Value → Option Value
  | none => (assignAll pairs []).map (.table .header)
  | some (.table .implied entries) => (assignAll pairs entries).map (.table .header)
  | some _ => none

/-- A header in double brackets adds a table to an array. -/
def appendWith (pairs : List (List String × Value)) : Option Value → Option Value
  | none => (assignAll pairs []).map fun entries => .array true [.table .header entries]
  | some (.array true items) =>
    (assignAll pairs []).map fun entries => .array true (items ++ [.table .header entries])
  | some _ => none

end Table

/-! ### Values that are not asked for -/

mutual

/-- Whether all numbers in a value are in range: at most 128 bits wide, signed or
unsigned, and no float beyond the largest. -/
def Value.inRange : Value → Bool
  | .integer n => -0x80000000000000000000000000000000 ≤ n && n < 0x100000000000000000000000000000000
  | .float inRange => inRange
  | .array _ items => itemsInRange items
  | .table _ entries => entriesInRange entries
  | .string _ | .boolean _ | .moment => true

def itemsInRange : List Value → Bool
  | [] => true
  | v :: rest => v.inRange && itemsInRange rest

def entriesInRange : List (String × Value) → Bool
  | [] => true
  | (_, v) :: rest => v.inRange && entriesInRange rest

end

end DnsFanout.Toml
