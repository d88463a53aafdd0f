import DnsFanout.Text.Blank
import DnsFanout.Text.Number
import DnsFanout.Toml.Table

/-! Numbers as they are written: decimal with a sign, or hexadecimal, octal and
binary without; with a point or an exponent they are floats. -/

namespace DnsFanout.Toml

open Text

/-- Digits in a base, with single underscores between them. -/
def readDigits? (base : Nat) (s : List Char) : Option (List Char) :=
  let plain := s.filter (· ≠ '_')
  if s.head? = some '_' ∨ s.getLast? = some '_' ∨ occurs ['_', '_'] s then none
  else if (readNat? base plain).isSome then some plain
  else none

/-- Decimal digits; a zero in front stands alone. -/
def readWhole? (s : List Char) : Option (List Char) :=
  if s.head? = some '0' ∧ s ≠ ['0'] then none else readDigits? 10 s

/-- Whether a number is negative, and what follows its sign. -/
def readSign : List Char → Bool × List Char
  | '-' :: rest => (true, rest)
  | '+' :: rest => (false, rest)
  | s => (false, s)

def readInteger? (s : List Char) : Option Int :=
  match s with
  | '0' :: 'x' :: rest => (readDigits? 16 rest).map fun ds => (ofDigits 16 ds : Int)
  | '0' :: 'o' :: rest => (readDigits? 8 rest).map fun ds => (ofDigits 8 ds : Int)
  | '0' :: 'b' :: rest => (readDigits? 2 rest).map fun ds => (ofDigits 2 ds : Int)
  | s =>
    let (negative, rest) := readSign s
    (readWhole? rest).map fun ds =>
      if negative then -(ofDigits 10 ds : Int) else (ofDigits 10 ds : Int)

/-- Whether `m · 10 ^ e` rounds to a finite float of 64 bits: it is below the
middle between the largest one and the next power of two. -/
def isFinite (m : Nat) (e : Int) : Bool :=
  let bound := 1 <<< 1024 - 1 <<< 970
  let size := (digits 10 m).length + e
  m == 0 || size < 308 ||
    (size < 311 && if 0 ≤ e then m * Nat.pow 10 e.toNat < bound else m < bound * Nat.pow 10 (-e).toNat)

/-- The text before the first `mark` and the text after it, if it occurs. -/
def cut (mark : Char → Bool) (s : List Char) : List Char × Option (List Char) :=
  match s.dropWhile (!mark ·) with
  | [] => (s, none)
  | _ :: rest => (s.takeWhile (!mark ·), some rest)

def readExponent? (s : List Char) : Option Int :=
  let (negative, rest) := readSign s
  (readDigits? 10 rest).map fun ds =>
    if negative then -(ofDigits 10 ds : Int) else (ofDigits 10 ds : Int)

/-- A float, and whether it is in range. -/
def readFloat? (s : List Char) : Option Bool :=
  let (_, rest) := readSign s
  if rest = "inf".toList ∨ rest = "nan".toList then some true
  else do
    let (mantissa, exponent) := cut (fun c => c = 'e' || c = 'E') rest
    let (whole, fraction) := cut (· = '.') mantissa
    if exponent.isNone ∧ fraction.isNone then none
    let whole ← readWhole? whole
    let fraction ← match fraction with
      | none => some []
      | some ds => readDigits? 10 ds
    let exponent ← match exponent with
      | none => some 0
      | some e => readExponent? e
    return isFinite (ofDigits 10 (whole ++ fraction)) (exponent - fraction.length)

end DnsFanout.Toml
