import DnsFanout.Net.Exchange

/-! Peers of streams that follow a script, for trying exchanges without a network. -/

namespace DnsFanout.Rehearsal

open Net

inductive Action
  /-- Reads a query, waits, sends octets back, and perhaps hangs up. -/
  | reply (raw : Bytes) (delay : Nat) (close : Bool)
  /-- Hangs up without reading. -/
  | drop

/-- A query that a peer read, and the octets that it sent back when it was done. -/
structure Turn where
  query : Bytes
  start : Instant
  raw : Bytes
  done : Instant

/-- One connection as the peer holds it. After its script it reads nothing more. -/
structure Peer where
  script : List Action
  /-- When the peer takes up its next action. -/
  free : Instant
  /-- Queries sent to the peer and not read, with the instants of their arrival. -/
  waiting : List (Instant × Bytes) := []
  /-- Octets on the way back, with the instants of their arrival. -/
  arriving : List (Instant × Bytes) := []
  closedAt : Option Instant := none
  turns : List Turn := []

namespace Peer

/-- Acts on what is there to be read. -/
def act : List Action → Peer → Peer
  | [], p => { p with script := [] }
  | .drop :: _, p => { p with script := [], closedAt := some p.free }
  | .reply raw delay close :: rest, p =>
    match p.waiting with
    | [] => { p with script := .reply raw delay close :: rest }
    | (sent, query) :: more =>
      let start := max p.free sent
      let done := start + delay
      let p := { p with
        free := done
        waiting := more
        arriving := p.arriving ++ [(done, raw)]
        turns := p.turns ++ [⟨query, start, raw, done⟩] }
      if close then { p with script := [], closedAt := some done } else act rest p

def connect (script : List Action) (now : Instant) : Peer := act script { script, free := now }

/-- The first frame that the octets make, when it is whole, and what is left. -/
def frame? (held : Bytes) : List (Instant × Bytes) →
    Option (Bytes × Instant × List (Instant × Bytes))
  | [] => none
  | (arrival, bytes) :: rest =>
    match Frame.split? (held ++ bytes) with
    | some (message, left) => some (message, arrival, (arrival, left) :: rest)
    | none => frame? (held ++ bytes) rest

/-- An exchange with the peer. A frame that lay ready is read in no time; one that
comes at the deadline is too late. -/
def ask (now deadline : Instant) (framed : Bytes) (p : Peer) :
    (Except StreamFailure Bytes × Instant) × Peer :=
  if p.closedAt.any (· ≤ now) then ((.error (.fault .brokenPipe), now), p)
  else
    let ready := frame? [] (p.arriving.filter (·.1 ≤ now))
    let p := act p.script { p with waiting := p.waiting ++ [(now, framed.drop 2)] }
    match frame? [] p.arriving with
    | some (message, arrival, left) =>
      if ready.isSome || max now arrival < deadline then
        ((.ok message, max now arrival), { p with arriving := left })
      else ((.error .timeout, deadline), p)
    | none =>
      match p.closedAt with
      | some closed =>
        if max now closed < deadline then ((.error (.fault .earlyEnd), max now closed), p)
        else ((.error .timeout, deadline), p)
      | none => ((.error .timeout, deadline), p)

/-- The turns up to the first whose octets come to nobody: the other side hung up
at `gone`. Before that the peer reads what had been sent. -/
def untilUnheard (gone : Instant) : List Turn → List Turn
  | [] => []
  | turn :: rest =>
    if turn.raw ≠ [] ∧ gone < turn.done then [turn] else turn :: untilUnheard gone rest

def hangUp (now : Instant) (p : Peer) : Peer :=
  { p with script := [], closedAt := some now, arriving := [],
           turns := untilUnheard now p.turns }

end Peer

/-- All connections there have been, by number. -/
structure Peers where
  connections : List Peer := []
  dials : Nat := 0

namespace Peers

/-- How a dial goes: refused with a failure, or open after a while. -/
structure DialPlan where
  failure : Option Failure := none
  duration : Nat := 0
  limit : Nat := 2000
  script : List Action := []

def dial (server : SocketAddress) (plan : DialPlan) : Dial Peers := fun now ps =>
  let ps := { ps with dials := ps.dials + 1 }
  match plan.failure with
  | some cause => ((.error cause, now), ps)
  | none =>
    if plan.limit < plan.duration then
      ((.error (.transportTimeout server.text), now + plan.limit), ps)
    else
      let opened := now + plan.duration
      ((.ok ps.connections.length, opened),
        { ps with connections := ps.connections ++ [Peer.connect plan.script opened] })

def ask (stream : Nat) (now deadline : Instant) (framed : Bytes) (ps : Peers) :
    (Except StreamFailure Bytes × Instant) × Peers :=
  match ps.connections[stream]? with
  | none => ((.error (.fault .brokenPipe), now), ps)
  | some p =>
    let (result, p) := p.ask now deadline framed
    (result, { ps with connections := ps.connections.set stream p })

def drop (stream : Nat) (now : Instant) (ps : Peers) : Peers :=
  { ps with connections := ps.connections.modify stream (Peer.hangUp now) }

/-- The queries that the peers have read, in the order of time. -/
def seen (now : Instant) (ps : Peers) : List Bytes :=
  let turns := (ps.connections.flatMap Peer.turns).filter (·.start ≤ now)
  (turns.mergeSort fun a b => a.start ≤ b.start).map Turn.query

instance : StreamNetwork Peers where
  ask := ask
  drop := drop

end Peers

end DnsFanout.Rehearsal
