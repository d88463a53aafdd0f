import DnsFanout.Failure
import DnsFanout.Net.Address

/-! Faults of sockets, and the failures that they mean for a query. -/

namespace DnsFanout.Net

inductive FaultKind
  | connectionRefused
  | connectionReset
  | connectionAborted
  | notConnected
  | brokenPipe
  | unexpectedEnd
  | timedOut
  | invalidInput
  | other
deriving DecidableEq, Repr

structure Fault where
  kind : FaultKind
  text : String
deriving DecidableEq, Repr

namespace Fault

/-- The peer went away. -/
def isPeerClosed (f : Fault) : Bool :=
  match f.kind with
  | .unexpectedEnd | .connectionReset | .connectionAborted | .brokenPipe | .notConnected => true
  | _ => false

def failure (server : SocketAddress) (f : Fault) : Failure :=
  match f.kind with
  | .connectionRefused => .connectionRefused server.text
  | .connectionReset => .connectionReset server.text
  | .timedOut => .transportTimeout server.text
  | _ => .transport server.text f.text

/-- The stream ended before what was read from it. -/
def earlyEnd : Fault := ⟨.unexpectedEnd, "early eof"⟩

def brokenPipe : Fault := ⟨.brokenPipe, "broken pipe"⟩

def tooLarge (size : Nat) : Fault :=
  ⟨.invalidInput, "DNS message too large: " ++ toString size ++ " bytes"⟩

end Fault

end DnsFanout.Net
