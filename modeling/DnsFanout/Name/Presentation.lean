import DnsFanout.Name.Basic
import DnsFanout.Text.Blank
import DnsFanout.Text.Number
import DnsFanout.Text.Numeric

/-! Names in presentation form. Labels are separated by dots; a backslash takes
the next character as it is, or three octal digits for a code point. -/

namespace DnsFanout.Name

open Text

inductive ParseError
  | unrecognized (c : Char)
  | illegal (c : Char)
  | labelTooLong (size : Nat)
  | malformedLabel (label : String)
  | tooLong (size : Nat)
deriving DecidableEq, Repr

def ParseError.message : ParseError → String
  | unrecognized c => "unrecognized char: " ++ String.singleton c
  | illegal c => "illegal char: " ++ String.singleton c
  | labelTooLong size => "label bytes exceed 63: " ++ toString size
  | malformedLabel label => "Malformed label: " ++ label
  | tooLong size => "name label data exceed 255: " ++ toString size

def isWord (c : Char) : Bool :=
  ('a' ≤ c && c ≤ 'z') || ('A' ≤ c && c ≤ 'Z') || ('0' ≤ c && c ≤ '9') || c = '_'

/-- The characters a label may begin with; a dot comes from an escape only. -/
def mayLead (c : Char) : Bool := isWord c || c = '*' || c = '.'

def mayFollow (c : Char) : Bool := isWord c || c = '-' || c = '.'

/-- The label that the characters spell. -/
def readLabel (cs : List Char) : Except ParseError Label :=
  let size := byteCount cs
  if 63 < size then .error (.labelTooLong size)
  else
    let fit := match cs with
      | [] => false
      | c :: rest => mayLead c && rest.all mayFollow
    match if fit then Label.ofBytes? (cs.map fun c => c.toNat.toUInt8) else none with
    | some l => .ok l
    | none => .error (.malformedLabel (String.ofList cs))

/-- Adds a label at the end. -/
def push (n : Name) (l : Label) : Except ParseError Name :=
  match ofLabels? (n.labels ++ [l]) n.absolute with
  | some n => .ok n
  | none => .error (.tooLong (wireSize (n.labels ++ [l])))

/-- What of an escape has been read. -/
inductive Escape
  | none
  | opened
  | one (i : Nat)
  | two (i j : Nat)

/-- A name half read: whole labels, and the characters of the next one, the last
in front. -/
structure Draft where
  name : Name
  pending : List Char
  escape : Escape

def octal (c : Char) : Except ParseError Nat :=
  match digit? 8 c with
  | some i => .ok i
  | none => .error (.illegal c)

def Draft.step (d : Draft) (c : Char) : Except ParseError Draft :=
  match d.escape with
  | .none =>
    if c = '.' then do
      return ⟨← d.name.push (← readLabel d.pending.reverse), [], .none⟩
    else if c = '\\' then .ok { d with escape := .opened }
    else if isControl c || isBlank c then .error (.unrecognized c)
    else .ok { d with pending := c :: d.pending }
  | .opened =>
    if isNumeric c then do return { d with escape := .one (← octal c) }
    else .ok ⟨d.name, c :: d.pending, .none⟩
  | .one i =>
    if isNumeric c then do return { d with escape := .two i (← octal c) }
    else .error (.unrecognized c)
  | .two i j =>
    if isNumeric c then do
      let k ← octal c
      return ⟨d.name, Char.ofNat (i * 64 + j * 8 + k) :: d.pending, .none⟩
    else .error (.unrecognized c)

/-- An escape that the end cuts off is dropped. The name is absolute when the
text is not empty and no label is pending. -/
def Draft.finish (d : Draft) (empty : Bool) : Except ParseError Name :=
  if d.pending = [] then .ok { d.name with absolute := !empty }
  else do d.name.push (← readLabel d.pending.reverse)

def parseChars (s : List Char) : Except ParseError Name :=
  if s = ['.'] then .ok root
  else do
    (← s.foldlM Draft.step ⟨⟨[], false, wireSize_nil_le⟩, [], .none⟩).finish s.isEmpty

def parse (s : String) : Except ParseError Name := parseChars s.toList

/-! ### Writing -/

/-- One octet of a label; `first` in the label or not. -/
def octetChars (first : Bool) (b : UInt8) : List Char :=
  let c := Char.ofNat b.toNat
  if isWord c || (c = '-' && !first) || (c = '*' && first) then [c]
  else if 0x21 ≤ b ∧ b ≤ 0x7E then ['\\', c]
  else '\\' :: padded 8 3 b.toNat

def labelChars (l : Label) : List Char :=
  match l.bytes with
  | [] => []
  | b :: rest => octetChars true b ++ rest.flatMap (octetChars false)

def toChars (n : Name) : List Char :=
  ['.'].intercalate (n.labels.map labelChars) ++ if n.absolute then ['.'] else []

def text (n : Name) : String := String.ofList n.toChars

end DnsFanout.Name
