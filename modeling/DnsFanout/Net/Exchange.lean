import DnsFanout.Net.Frame
import DnsFanout.Net.Pool

/-! One exchange over a stream: a query is written and a reply is read, on an idle
connection if there is one. A stream goes back to the pool only after a whole
exchange. -/

namespace DnsFanout.Net

/-- How an exchange on one stream fails. -/
inductive StreamFailure
  | timeout
  | fault (cause : Fault)
deriving DecidableEq

/-- The far side of streams, which are known by number. -/
class StreamNetwork (ω : Type) where
  /-- Writes octets to a stream and reads one frame from it, up to a deadline. Gives
  the reply or the failure, and when. -/
  ask : Nat → Instant → Instant → Bytes → ω → (Except StreamFailure Bytes × Instant) × ω
  /-- Closes a stream on this side. -/
  drop : Nat → Instant → ω → ω

/-- The octets of a reply, and whether an idle connection carried it. -/
structure Reply where
  bytes : Bytes
  reused : Bool
deriving DecidableEq

/-- An exchange that has ended, or was abandoned at the instant. -/
structure Exchanged (ω : Type) where
  result : Option (Except Failure Reply)
  finished : Instant
  pool : Pool Nat
  network : ω

/-- Opening a stream: its number or a failure, and when; within a limit. -/
abbrev Dial (ω : Type) := Instant → ω → (Except Failure Nat × Instant) × ω

namespace Exchange

variable {ω : Type} [StreamNetwork ω]

/-- What a failure on a stream means; on an idle connection a peer that has closed
it is told apart. -/
def failure (server : SocketAddress) (reused : Bool) : StreamFailure → Failure
  | .timeout => .transportTimeout server.text
  | .fault cause =>
    if reused ∧ cause.isPeerClosed then .closedConnection else cause.failure server

/-- Puts a stream back, and closes it where the pool does not keep it. -/
def release (pool : Pool Nat) (server : SocketAddress) (now : Instant) (stream : Nat)
    (network : ω) : Pool Nat × ω :=
  let kept := pool.checkin server now stream
  (kept, if kept.idleCount server = pool.idleCount server then
    StreamNetwork.drop stream now network else network)

/-- One exchange on a given stream, abandoned at `stop`. -/
def onStream (pool : Pool Nat) (server : SocketAddress) (query : Bytes) (timeout : Nat)
    (stop : Option Instant) (reused : Bool) (stream : Nat) (now : Instant) (network : ω) :
    Exchanged ω :=
  match Frame.encode query with
  | .error cause =>
    ⟨some (.error (failure server reused (.fault cause))), now, pool,
      StreamNetwork.drop stream now network⟩
  | .ok framed =>
    let deadline := match stop with
      | some stop => min stop (now + timeout)
      | none => now + timeout
    let ((result, finished), network) := StreamNetwork.ask stream now deadline framed network
    if stop.any (· ≤ finished) then
      ⟨none, finished, pool, StreamNetwork.drop stream finished network⟩
    else match result with
      | .error cause =>
        ⟨some (.error (failure server reused cause)), finished, pool,
          StreamNetwork.drop stream finished network⟩
      | .ok bytes =>
        let (pool, network) := release pool server finished stream network
        ⟨some (.ok ⟨bytes, reused⟩), finished, pool, network⟩

/-- One exchange with a server. `timeout` bounds it once the stream is open; at
`stop` it is abandoned wherever it is. -/
def run (pool : Pool Nat) (server : SocketAddress) (query : Bytes) (timeout : Nat)
    (stop : Option Instant) (dial : Dial ω) (now : Instant) (network : ω) : Exchanged ω :=
  match pool.checkout server now with
  | (some stream, pool) => onStream pool server query timeout stop true stream now network
  | (none, pool) =>
    let ((opened, now), network) := dial now network
    match opened with
    | .error cause =>
      if stop.any (· ≤ now) then ⟨none, now, pool, network⟩
      else ⟨some (.error cause), now, pool, network⟩
    | .ok stream =>
      if stop.any (· ≤ now) then ⟨none, now, pool, StreamNetwork.drop stream now network⟩
      else onStream pool server query timeout stop false stream now network

end Exchange

end DnsFanout.Net
