import DnsFanout.Toml.Table

/-! What a reader of a document asks values for. -/

namespace DnsFanout.Toml

/-- The value of a key as `read` takes it, or the default of a key that is not there. -/
def Table.field {α : Type} (t : Table) (key : String) (read : Value → Option α) (default : α) :
    Option α :=
  match t.lookup key with
  | none => some default
  | some value => read value

namespace Value

/-- The values of some fields by name. A table has them by its keys, and all its other
values must be in range; an array has them in order; a moment has none of them. -/
def fields? (names : List String) : Value → Option Table
  | .table _ entries =>
    if entriesInRange (entries.filter fun (key, _) => !names.contains key) then some entries
    else none
  | .array _ items => some (names.zip items)
  | .moment => some []
  | _ => none

def string? : Value → Option String
  | .string text => some text
  | _ => none

def strings? : Value → Option (List String)
  | .array _ items => items.mapM string?
  | _ => none

def boolean? : Value → Option Bool
  | .boolean b => some b
  | _ => none

/-- A number that is not negative and below `bound`. -/
def natural? (bound : Nat) : Value → Option Nat
  | .integer n => if 0 ≤ n ∧ n < bound then some n.toNat else none
  | _ => none

def word16? (v : Value) : Option UInt16 := (v.natural? 0x10000).map Nat.toUInt16

def word32? (v : Value) : Option UInt32 := (v.natural? 0x100000000).map Nat.toUInt32

def word64? (v : Value) : Option UInt64 := (v.natural? 0x10000000000000000).map Nat.toUInt64

/-- One of some words, by itself or as the only key of a table with nothing in it. -/
def word? {α : Type} (words : List (String × α)) : Value → Option α
  | .string text => words.lookup text
  | .table _ [(key, .table _ [])] => words.lookup key
  | .table _ [(key, .array _ [])] => words.lookup key
  | _ => none

end Value

end DnsFanout.Toml
