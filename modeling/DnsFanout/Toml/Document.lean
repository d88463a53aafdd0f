import DnsFanout.Toml.Moment
import DnsFanout.Toml.Number
import DnsFanout.Toml.Text

/-! Documents. A text is read as lines, each with one statement at most; the
statements are then folded into one table. -/

namespace DnsFanout.Toml

/-! ### Values -/

def isScalarChar (c : Char) : Bool := isKeyChar c || c = '+' || c = '.' || c = ':'

/-- The word in front; a date and a time may have one space between them. -/
def scalarSplit (s : List Char) : List Char × List Char :=
  let word := s.takeWhile isScalarChar
  match s.dropWhile isScalarChar with
  | ' ' :: c :: rest =>
    if afterDate? word = some [] ∧ Text.isDigit 10 c then
      (word ++ ' ' :: (c :: rest).takeWhile isScalarChar, (c :: rest).dropWhile isScalarChar)
    else (word, ' ' :: c :: rest)
  | rest => (word, rest)

def scalar? (word : List Char) : Option Value :=
  if word = "true".toList then some (.boolean true)
  else if word = "false".toList then some (.boolean false)
  else if isMoment word then some .moment
  else match readInteger? word with
    | some n => some (.integer n)
    | none => (readFloat? word).map .float

/-- A value that holds no other. -/
def readScalar (s : List Char) : Option (Value × List Char) :=
  match s with
  | '"' :: _ | '\'' :: _ => (readQuoted s).map fun (text, rest) => (.string text, rest)
  | s =>
    let (word, rest) := scalarSplit s
    (scalar? word).map (·, rest)

/-- A path, an equals sign and a value, with what `skip` passes over around the sign. -/
def readPair (skip : List Char → List Char) (read : List Char → Option (Value × List Char))
    (s : List Char) : Option ((List String × Value) × List Char) := do
  let (path, rest) ← readPath s
  match skip rest with
  | '=' :: rest =>
    let (value, rest) ← read (skip rest)
    return ((path, value), rest)
  | _ => none

/-- The items of an array up to its bracket, over any number of lines; a comma may
follow the last. -/
def readItems (read : List Char → Option (Value × List Char)) :
    Nat → List Char → Option (List Value × List Char)
  | 0, _ => none
  | fuel + 1, s =>
    match skipGap false s with
    | ']' :: rest => some ([], rest)
    | s => do
      let (value, rest) ← read s
      match skipGap false rest with
      | ']' :: rest => return ([value], rest)
      | ',' :: rest =>
        let (values, rest) ← readItems read fuel rest
        return (value :: values, rest)
      | _ => none

/-- The pairs of a table up to its brace, over any number of lines; a comma may
follow the last. -/
def readPairs (read : List Char → Option (Value × List Char)) :
    Nat → List Char → Option (List (List String × Value) × List Char)
  | 0, _ => none
  | fuel + 1, s =>
    match skipGap false s with
    | '}' :: rest => some ([], rest)
    | s => do
      let (pair, rest) ← readPair (skipGap false) read s
      match skipGap false rest with
      | '}' :: rest => return ([pair], rest)
      | ',' :: rest =>
        let (pairs, rest) ← readPairs read fuel rest
        return (pair :: pairs, rest)
      | _ => none

/-- A value with at most `depth` arrays and tables inside each other. -/
def readValue : (depth : Nat) → List Char → Option (Value × List Char)
  | 0, s => readScalar s
  | depth + 1, s =>
    match s with
    | '[' :: rest =>
      (readItems (readValue depth) (rest.length + 1) rest).map fun (items, rest) =>
        (.array false items, rest)
    | '{' :: rest => do
      let (pairs, rest) ← readPairs (readValue depth) (rest.length + 1) rest
      return (.table .closed (← Table.assignAll pairs []), rest)
    | s => readScalar s

/-! ### Statements -/

inductive Statement
  /-- A header in brackets. -/
  | opens (path : List String)
  /-- A header in double brackets. -/
  | appends (path : List String)
  | assigns (path : List String) (value : Value)

/-- The statement in front, if the line has one. -/
def readStatement (s : List Char) : Option (Option Statement × List Char) :=
  match s with
  | '[' :: '[' :: rest => do
    let (path, rest) ← readPath (skipSpace rest)
    match rest with
    | ']' :: ']' :: rest => return (some (.appends path), rest)
    | _ => none
  | '[' :: rest => do
    let (path, rest) ← readPath (skipSpace rest)
    match rest with
    | ']' :: rest => return (some (.opens path), rest)
    | _ => none
  | s =>
    if s = [] ∨ s.head? = some '#' ∨ (afterBreak? s).isSome then some (none, s)
    else (readPair skipSpace (readValue maxDepth) s).map fun ((path, value), rest) =>
      (some (.assigns path value), rest)

def readStatements : Nat → List Char → Option (List Statement)
  | 0, _ => none
  | fuel + 1, s => do
    let (statement, rest) ← readStatement (skipSpace s)
    match skipComment (skipSpace rest) with
    | [] => return statement.toList
    | rest => return statement.toList ++ (← readStatements fuel (← afterBreak? rest))

/-! ### Folding -/

/-- The assignments before the first header. -/
def leading : List Statement → List (List String × Value)
  | .assigns path value :: rest => (path, value) :: leading rest
  | _ => []

/-- Adds each header with the assignments below it; those before the first header
are passed over. -/
def addSections : List Statement → Table → Option Table
  | [], t => some t
  | .assigns _ _ :: rest, t => addSections rest t
  | .opens path :: rest, t =>
    (Table.onPath (Table.openWith (leading rest)) path t).bind (addSections rest)
  | .appends path :: rest, t =>
    (Table.onPath (Table.appendWith (leading rest)) path t).bind (addSections rest)

def fold (statements : List Statement) : Option Table :=
  (Table.assignAll (leading statements) []).bind (addSections statements)

/-- The table that a document describes. A byte order mark in front is skipped. -/
def parse (text : String) : Option Table :=
  let s := match text.toList with
    | '\uFEFF' :: rest => rest
    | s => s
  (readStatements (s.length + 1) s).bind fold

end DnsFanout.Toml
