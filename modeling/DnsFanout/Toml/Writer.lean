import DnsFanout.Text.Number

/-! Writing values and lines. A text is put in the plainest marks that can hold
it. -/

namespace DnsFanout.Toml

open Text

/-- The four kinds of marks around a text. -/
inductive Style
  | basic
  | literal
  | longBasic
  | longLiteral
deriving DecidableEq, Repr

/-- The control characters that no text holds as they are. -/
def needsEscape (c : Char) : Bool :=
  (c.toNat < 32 && c ≠ '\t' && c ≠ '\n') || c.toNat = 127

/-- The length of the longest run of `mark`. -/
def longestRun (mark : Char) : (run : Nat) → List Char → Nat
  | run, [] => run
  | run, c :: rest =>
    if c = mark then longestRun mark (run + 1) rest else max run (longestRun mark 0 rest)

/-- Basic marks are best, then literal ones, if nothing has to be escaped; the
same for the long forms; and at last basic marks with escapes. -/
def Style.select (s : List Char) : Style :=
  let escapes := s.any needsEscape
  let broken := s.contains '\n'
  let slashed := s.contains '\\'
  if !escapes && !broken && !slashed && longestRun '"' 0 s = 0 then basic
  else if !escapes && !broken && longestRun '\'' 0 s = 0 then literal
  else if !escapes && !slashed && longestRun '"' 0 s ≤ 2 then longBasic
  else if !escapes && longestRun '\'' 0 s ≤ 2 then longLiteral
  else if broken then longBasic else basic

/-- One character between basic marks. -/
def escapeChar (c : Char) : List Char :=
  if c = '\x08' then ['\\', 'b']
  else if c = '\t' then ['\\', 't']
  else if c = '\n' then ['\\', 'n']
  else if c = '\x0c' then ['\\', 'f']
  else if c = '\r' then ['\\', 'r']
  else if c = '"' then ['\\', '"']
  else if c = '\\' then ['\\', '\\']
  else if needsEscape c then '\\' :: 'u' :: (padded 16 4 c.toNat).map Char.toUpper
  else [c]

/-- A text between long basic marks: line ends are kept, and so are quotation marks
but every third in a row. -/
def escapeLong : (run : Nat) → List Char → List Char
  | _, [] => []
  | run, c :: rest =>
    if c = '\n' then c :: escapeLong 0 rest
    else if c = '"' ∧ run < 2 then c :: escapeLong (run + 1) rest
    else escapeChar c ++ escapeLong 0 rest

/-- A text with line ends begins on a line of its own. -/
def lead (s : List Char) : List Char := if s.contains '\n' then ['\n'] else []

def writeStyled (s : List Char) : Style → List Char
  | .basic => '"' :: s.flatMap escapeChar ++ ['"']
  | .literal => '\'' :: s ++ ['\'']
  | .longBasic => "\"\"\"".toList ++ lead s ++ escapeLong 0 s ++ "\"\"\"".toList
  | .longLiteral => "'''".toList ++ lead s ++ s ++ "'''".toList

def writeText (text : String) : List Char :=
  writeStyled text.toList (Style.select text.toList)

def writeItem (text : String) : List Char := "    ".toList ++ writeText text ++ [',', '\n']

/-- Two texts or more stand on lines of their own. -/
def writeTexts : List String → List Char
  | [] => "[]".toList
  | [text] => '[' :: writeText text ++ [']']
  | texts => '[' :: '\n' :: texts.flatMap writeItem ++ [']']

def writeNumber (n : Nat) : List Char := digits 10 n

def writeBoolean (b : Bool) : List Char := (toString b).toList

/-- A line that gives a bare key its written value. -/
def assignment (key : String) (value : List Char) : List Char :=
  key.toList ++ " = ".toList ++ value ++ ['\n']

def header (key : String) : List Char := '[' :: key.toList ++ "]\n".toList

end DnsFanout.Toml
