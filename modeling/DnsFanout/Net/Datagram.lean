import DnsFanout.Message.Decoder
import DnsFanout.Net.Exchange

/-! One exchange over datagrams: a query is sent, and the first datagram with its
number is the reply. A socket goes back to the pool only after such a reply. -/

namespace DnsFanout.Net

/-- The far side of datagram sockets, which are known by number. -/
class DatagramNetwork (ω : Type) where
  /-- Opens a socket for one server. -/
  openSocket : SocketAddress → Instant → ω → Except Fault Nat × ω
  send : Nat → Instant → Bytes → ω → Except Fault Unit × ω
  /-- What a socket gets, with the instants, in order; without what was taken. -/
  arrivals : Nat → ω → List (Instant × Except Fault Bytes)
  /-- Takes some arrivals off the front. -/
  take : Nat → Nat → ω → ω
  close : Nat → Instant → ω → ω

namespace Datagram

/-- The largest datagram that is taken whole. -/
def maxSize : Nat := 4096

/-- Whether an arrival ends the wait for a reply: a fault, or a datagram with the
number of the query. -/
def settles (query : Bytes) : Except Fault Bytes → Bool
  | .error _ => true
  | .ok bytes => (leadingWord? bytes).isSome && leadingWord? bytes = leadingWord? query

/-- The first arrival that settles the query, and how many arrivals it uses up. -/
def first? (query : Bytes) :
    List (Instant × Except Fault Bytes) → Option (Nat × Instant × Except Fault Bytes)
  | [] => none
  | (arrival, event) :: rest =>
    if settles query event then some (1, arrival, event)
    else (first? query rest).map fun (count, found) => (count + 1, found)

variable {ω : Type} [DatagramNetwork ω]

/-- Puts a socket back, and closes it where the pool does not keep it. -/
def release (pool : Pool Nat) (server : SocketAddress) (now : Instant) (socket : Nat)
    (network : ω) : Pool Nat × ω :=
  let kept := pool.checkin server now socket
  (kept, if kept.idleCount server = pool.idleCount server then
    DatagramNetwork.close socket now network else network)

/-- The wait for the reply on a socket that has sent the query. What has arrived
already counts even if no time is left. -/
def await (pool : Pool Nat) (server : SocketAddress) (query : Bytes) (timeout : Nat)
    (stop : Option Instant) (reused : Bool) (socket : Nat) (now : Instant) (network : ω) :
    Exchanged ω :=
  let deadline := now + timeout
  let timely := (DatagramNetwork.arrivals socket network).takeWhile fun (arrival, _) =>
    arrival ≤ now || arrival < deadline
  let (finished, used, event) := match first? query timely with
    | some (used, arrival, event) => (max now arrival, used, some event)
    | none => (deadline, timely.length, none)
  let network := DatagramNetwork.take socket used network
  if stop.any (· ≤ finished) then
    let abandoned := min finished (stop.getD finished)
    ⟨none, abandoned, pool, DatagramNetwork.close socket abandoned network⟩
  else match event with
    | none =>
      ⟨some (.error (.transportTimeout server.text)), finished, pool,
        DatagramNetwork.close socket finished network⟩
    | some (.error cause) =>
      ⟨some (.error (cause.failure server)), finished, pool,
        DatagramNetwork.close socket finished network⟩
    | some (.ok bytes) =>
      let (pool, network) := release pool server finished socket network
      ⟨some (.ok ⟨bytes.take maxSize, reused⟩), finished, pool, network⟩

/-- Sends the query on a socket and waits. -/
def onSocket (pool : Pool Nat) (server : SocketAddress) (query : Bytes) (timeout : Nat)
    (stop : Option Instant) (reused : Bool) (socket : Nat) (now : Instant) (network : ω) :
    Exchanged ω :=
  match DatagramNetwork.send socket now query network with
  | (.error cause, network) =>
    ⟨some (.error (cause.failure server)), now, pool, DatagramNetwork.close socket now network⟩
  | (.ok (), network) => await pool server query timeout stop reused socket now network

/-- One exchange with a server, abandoned at `stop`. -/
def run (pool : Pool Nat) (server : SocketAddress) (query : Bytes) (timeout : Nat)
    (stop : Option Instant) (now : Instant) (network : ω) : Exchanged ω :=
  match pool.checkout server now with
  | (some socket, pool) => onSocket pool server query timeout stop true socket now network
  | (none, pool) =>
    match DatagramNetwork.openSocket server now network with
    | (.error cause, network) => ⟨some (.error (cause.failure server)), now, pool, network⟩
    | (.ok socket, network) => onSocket pool server query timeout stop false socket now network

end Datagram

end DnsFanout.Net
