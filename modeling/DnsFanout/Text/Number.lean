/-! Unsigned numbers in text. -/

namespace DnsFanout.Text

/-- The value of an ASCII letter or digit in a base of at most thirty-six. -/
def digit? (base : Nat) (c : Char) : Option Nat :=
  let value :=
    if '0' ≤ c ∧ c ≤ '9' then some (c.toNat - '0'.toNat)
    else if 'a' ≤ c ∧ c ≤ 'z' then some (c.toNat - 'a'.toNat + 10)
    else if 'A' ≤ c ∧ c ≤ 'Z' then some (c.toNat - 'A'.toNat + 10)
    else none
  value.filter (· < base)

def isDigit (base : Nat) (c : Char) : Bool := (digit? base c).isSome

/-- The number that a run of digits stands for, the most significant digit first. -/
def ofDigits (base : Nat) (digits : List Char) : Nat :=
  digits.foldl (fun n c => n * base + (digit? base c).getD 0) 0

/-- A nonempty text of digits only. -/
def readNat? (base : Nat) (s : List Char) : Option Nat :=
  if s ≠ [] ∧ s.all (isDigit base) then some (ofDigits base s) else none

/-- A decimal number of sixteen bits: leading zeros and one plus sign are allowed. -/
def readWord16? (s : List Char) : Option UInt16 :=
  let digits := match s with
    | '+' :: rest => rest
    | _ => s
  (readNat? 10 digits).bind fun n => if n < 65536 then some n.toUInt16 else none

/-- The digits of `n` in a base of at most sixteen, in lower case. -/
def digits (base n : Nat) : List Char := Nat.toDigits base n

/-- The last `count` digits of `n`, with leading zeros. -/
def padded (base count n : Nat) : List Char :=
  match count with
  | 0 => []
  | count + 1 => padded base count (n / base) ++ [Nat.digitChar (n % base)]

end DnsFanout.Text
