import DnsFanout.Text.Number

/-! Quoted text, keys, and the space between them. A reader takes what it reads
off the front of a list of characters. -/

namespace DnsFanout.Toml

open Text

def isSpace (c : Char) : Bool := c = ' ' || c = '\t'

def skipSpace (s : List Char) : List Char := s.dropWhile isSpace

/-- The characters of one line: no control character but the tab. -/
def isPlain (c : Char) : Bool := c = '\t' || (32 ≤ c.toNat && c.toNat ≠ 127)

def skipComment : List Char → List Char
  | '#' :: rest => rest.dropWhile isPlain
  | s => s

/-- What follows a line end in front. -/
def afterBreak? : List Char → Option (List Char)
  | '\n' :: rest => some rest
  | '\r' :: '\n' :: rest => some rest
  | _ => none

/-- Skips space and line ends. -/
def skipLines : List Char → List Char
  | [] => []
  | '\n' :: rest => skipLines rest
  | '\r' :: '\n' :: rest => skipLines rest
  | c :: rest => if isSpace c then skipLines rest else c :: rest

/-- Skips space, line ends and comments; begins inside a `comment` or not. -/
def skipGap (comment : Bool) : List Char → List Char
  | [] => []
  | '\n' :: rest => skipGap false rest
  | '\r' :: '\n' :: rest => skipGap false rest
  | c :: rest =>
    if (if comment then isPlain c else isSpace c) then skipGap comment rest
    else if c = '#' then skipGap true rest
    else c :: rest

/-! ### Quoted text -/

/-- A piece of quoted text, or its last one with what follows the closing mark. -/
inductive Piece
  | part (chars rest : List Char)
  | last (chars rest : List Char)

/-- Joins the pieces that `step` cuts off, up to the last. -/
def collect (step : List Char → Option Piece) : Nat → List Char → Option (List Char × List Char)
  | 0, _ => none
  | fuel + 1, s =>
    match step s with
    | none => none
    | some (.last chars rest) => some (chars, rest)
    | some (.part chars rest) =>
      (collect step fuel rest).map fun (more, rest) => (chars ++ more, rest)

/-- The code point of exactly `count` hexadecimal digits. -/
def readCodePoint (count : Nat) (s : List Char) : Option Piece :=
  if s.length < count then none
  else (readNat? 16 (s.take count)).bind fun n =>
    if n.isValidChar then some (.part [Char.ofNat n] (s.drop count)) else none

/-- What follows a backslash. -/
def readEscape : List Char → Option Piece
  | 'b' :: rest => some (.part ['\x08'] rest)
  | 't' :: rest => some (.part ['\t'] rest)
  | 'n' :: rest => some (.part ['\n'] rest)
  | 'f' :: rest => some (.part ['\x0c'] rest)
  | 'r' :: rest => some (.part ['\r'] rest)
  | 'e' :: rest => some (.part ['\x1b'] rest)
  | '"' :: rest => some (.part ['"'] rest)
  | '\\' :: rest => some (.part ['\\'] rest)
  | 'x' :: rest => readCodePoint 2 rest
  | 'u' :: rest => readCodePoint 4 rest
  | 'U' :: rest => readCodePoint 8 rest
  | _ => none

/-- The next character, if a line may hold it. -/
def readPlain : List Char → Option Piece
  | [] => none
  | c :: rest => if isPlain c then some (.part [c] rest) else none

/-- The next character, or a line end as it is written. -/
def readBroken : List Char → Option Piece
  | '\n' :: rest => some (.part ['\n'] rest)
  | '\r' :: '\n' :: rest => some (.part ['\r', '\n'] rest)
  | s => readPlain s

/-- Three marks close a long text; up to two more in front of them belong to it. -/
def readMarks (mark : Char) (s : List Char) : Piece :=
  let run := min (s.takeWhile (· = mark)).length 5
  if run < 3 then .part (List.replicate run mark) (s.drop run)
  else .last (List.replicate (run - 3) mark) (s.drop run)

def stepBasic : List Char → Option Piece
  | '"' :: rest => some (.last [] rest)
  | '\\' :: rest => readEscape rest
  | s => readPlain s

def stepLiteral : List Char → Option Piece
  | '\'' :: rest => some (.last [] rest)
  | s => readPlain s

/-- A backslash at the end of a line takes away the space up to the next text. -/
def stepLongBasic : List Char → Option Piece
  | '\\' :: rest =>
    match afterBreak? (skipSpace rest) with
    | some rest => some (.part [] (skipLines rest))
    | none => readEscape rest
  | '"' :: rest => some (readMarks '"' ('"' :: rest))
  | s => readBroken s

def stepLongLiteral : List Char → Option Piece
  | '\'' :: rest => some (readMarks '\'' ('\'' :: rest))
  | s => readBroken s

def readWith (step : List Char → Option Piece) (s : List Char) : Option (String × List Char) :=
  (collect step (s.length + 1) s).map fun (chars, rest) => (String.ofList chars, rest)

/-- A line end right after the opening marks is not part of a long text. -/
def readLong (step : List Char → Option Piece) (s : List Char) : Option (String × List Char) :=
  readWith step ((afterBreak? s).getD s)

/-- Quoted text of any of the four kinds. -/
def readQuoted : List Char → Option (String × List Char)
  | '"' :: '"' :: '"' :: rest => readLong stepLongBasic rest
  | '\'' :: '\'' :: '\'' :: rest => readLong stepLongLiteral rest
  | '"' :: rest => readWith stepBasic rest
  | '\'' :: rest => readWith stepLiteral rest
  | _ => none

/-! ### Keys -/

def isKeyChar (c : Char) : Bool :=
  ('a' ≤ c && c ≤ 'z') || ('A' ≤ c && c ≤ 'Z') || ('0' ≤ c && c ≤ '9') || c = '_' || c = '-'

/-- A bare key, or one in single marks. -/
def readKey : List Char → Option (String × List Char)
  | '"' :: rest => readWith stepBasic rest
  | '\'' :: rest => readWith stepLiteral rest
  | s =>
    let key := s.takeWhile isKeyChar
    if key = [] then none else some (String.ofList key, s.dropWhile isKeyChar)

/-- At most `count` keys with dots between them, and the space after. -/
def readKeys : (count : Nat) → List Char → Option (List String × List Char)
  | 0, _ => none
  | count + 1, s => do
    let (key, rest) ← readKey s
    match skipSpace rest with
    | '.' :: rest =>
      let (keys, rest) ← readKeys count (skipSpace rest)
      return (key :: keys, rest)
    | rest => return ([key], rest)

/-- How many keys a path may have, and how many arrays and tables may stand inside
each other. -/
def maxDepth : Nat := 80

def readPath (s : List Char) : Option (List String × List Char) := readKeys maxDepth s

end DnsFanout.Toml
