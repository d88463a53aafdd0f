/-! The transport of one attempt: what the client used, and what the forwarder
prefers. -/

namespace DnsFanout

inductive Transport
  | datagram
  | stream
deriving DecidableEq, Repr

def Transport.text : Transport → String
  | .datagram => "udp"
  | .stream => "tcp"

/-- How attempts at a resolver choose their transport. -/
structure Preference where
  forceStream : Bool := false
  preferDatagram : Bool := false
deriving DecidableEq, Repr

/-- Forcing streams wins over preferring datagrams; with neither, an attempt
uses what the client used. -/
def Preference.select (p : Preference) (incoming : Transport) : Transport :=
  if p.forceStream then .stream else if p.preferDatagram then .datagram else incoming

end DnsFanout
