import DnsFanout.Text.Number

/-! Dates and times of day. Only their form is checked; no value is kept. -/

namespace DnsFanout.Toml

open Text

/-- A number of exactly `count` digits within bounds, and the text after it. -/
def readPart (count low high : Nat) (s : List Char) : Option (Nat × List Char) := do
  if s.length < count then none
  let n ← readNat? 10 (s.take count)
  if low ≤ n ∧ n ≤ high then some (n, s.drop count) else none

def after (c : Char) : List Char → Option (List Char)
  | [] => none
  | x :: rest => if x = c then some rest else none

def isLeapYear (year : Nat) : Bool := year % 4 = 0 && (year % 100 ≠ 0 || year % 400 = 0)

def daysIn (year month : Nat) : Nat :=
  if month = 2 then if isLeapYear year then 29 else 28
  else if month ∈ [4, 6, 9, 11] then 30 else 31

/-- The text after a date. -/
def afterDate? (s : List Char) : Option (List Char) := do
  let (year, s) ← readPart 4 0 9999 s
  let (month, s) ← readPart 2 1 12 (← after '-' s)
  let (_, s) ← readPart 2 1 (daysIn year month) (← after '-' s)
  return s

/-- The text after a fraction of a second, if there is one; it has a digit at least. -/
def afterFraction? : List Char → Option (List Char)
  | '.' :: rest =>
    if rest.takeWhile (isDigit 10) = [] then none else some (rest.dropWhile (isDigit 10))
  | s => some s

/-- The text after a time of day; the seconds may be left out. -/
def afterTime? (s : List Char) : Option (List Char) := do
  let (_, s) ← readPart 2 0 23 s
  let (_, s) ← readPart 2 0 59 (← after ':' s)
  match s with
  | ':' :: rest =>
    let (_, s) ← readPart 2 0 60 rest
    afterFraction? s
  | s => return s

/-- An offset from universal time, and nothing else. -/
def isOffset (s : List Char) : Bool :=
  match s with
  | [] => true
  | c :: rest =>
    if c = 'Z' ∨ c = 'z' then rest = []
    else if c = '+' ∨ c = '-' then
      (do
        let (_, s) ← readPart 2 0 23 rest
        let (_, s) ← readPart 2 0 59 (← after ':' s)
        return s) = some []
    else false

/-- Whether the text is a date, a time, or both with or without an offset. -/
def isMoment (s : List Char) : Bool :=
  afterTime? s = some [] ||
    match afterDate? s with
    | none => false
    | some [] => true
    | some (c :: rest) =>
      (c = 'T' || c = 't' || c = ' ') && ((afterTime? rest).any isOffset)

end DnsFanout.Toml
