import DnsFanout.Net.Address

/-! The names that a TLS server may be certified for: host names and internet
addresses. -/

namespace DnsFanout.Net

open Text

/-- A letter, a digit, an underscore or a hyphen. -/
def isHostChar (c : Char) : Bool := isDigit 36 c || c = '_' || c = '-'

/-- At most sixty-three characters, without a hyphen at either end. -/
def isHostLabel (label : List Char) : Bool :=
  label ≠ [] && label.length ≤ 63 && label.all isHostChar &&
    label.head? ≠ some '-' && label.getLast? ≠ some '-'

/-- The labels of a host name, which may end in a dot. -/
def hostLabels (s : List Char) : List (List Char) :=
  (if s.getLast? = some '.' then s.dropLast else s).splitOnP (· = '.')

/-- The last label of a host name is not a number. -/
def isHostName (s : List Char) : Bool :=
  s.length ≤ 253 && (hostLabels s).all isHostLabel &&
    !(hostLabels s).getLast?.any fun label => label.all (isDigit 10)

def isServerName (s : List Char) : Bool := isHostName s || (IPAddress.parse? s).isSome

end DnsFanout.Net
