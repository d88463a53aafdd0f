import DnsFanout.Net.Datagram
import DnsFanout.Net.ServerName

/-! Opening streams, plain or secured by TLS. -/

namespace DnsFanout.Net

/-- A network for all that a resolver is asked over. -/
class Network (ω : Type) extends StreamNetwork ω, DatagramNetwork ω where
  /-- Connects a stream to a server, within a limit in milliseconds. -/
  connect : SocketAddress → Nat → Instant → ω → (Except StreamFailure Nat × Instant) × ω
  /-- Secures a stream for a server name, within a limit. -/
  secure : Nat → String → Nat → Instant → ω → (Except StreamFailure Unit × Instant) × ω

namespace Dial

/-- The longest time that opening a stream takes. -/
def maxDuration : Nat := 2000

variable {ω : Type} [Network ω]

def plain (server : SocketAddress) (timeout : Nat) : Dial ω := fun now network =>
  let ((opened, now), network) :=
    Network.connect server (min timeout maxDuration) now network
  ((opened.mapError (Exchange.failure server false), now), network)

def handshakeFailure (server : SocketAddress) : StreamFailure → Failure
  | .timeout => .transportTimeout server.text
  | .fault cause => .transport server.text ("TLS handshake failed: " ++ cause.text)

/-- The server name is checked before anything is sent; connecting and securing have
the same time each. -/
def secured (server : SocketAddress) (name : String) (timeout : Nat) : Dial ω :=
  fun now network =>
    if isServerName name.toList then
      match plain server timeout now network with
      | ((.error cause, now), network) => ((.error cause, now), network)
      | ((.ok stream, now), network) =>
        match Network.secure stream name (min timeout maxDuration) now network with
        | ((.ok (), now), network) => ((.ok stream, now), network)
        | ((.error cause, now), network) =>
          ((.error (handshakeFailure server cause), now), StreamNetwork.drop stream now network)
    else ((.error (.configuration
      ("Invalid TLS server name '" ++ name ++ "': invalid dns name")), now), network)

end Dial

end DnsFanout.Net
