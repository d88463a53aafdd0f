import DnsFanout.Endpoint
import DnsFanout.Health
import DnsFanout.Message.Wire
import DnsFanout.Net.Dial
import DnsFanout.Resolver

/-! Resolvers behind an endpoint: what an attempt sends and takes, and the probes
that follow failures. -/

namespace DnsFanout

open Net

/-- A resolver that is asked over a network. -/
structure Proxy (ω : Type) where
  endpoint : Endpoint
  health : Health := {}
  probesOverStream : Bool := false
  /-- Milliseconds that an exchange takes at most. -/
  readTimeout : Nat := 2000
  stopped : Bool := false
  sockets : Pool Nat
  streams : Pool Nat
  network : ω

namespace Proxy

variable {ω : Type}

/-- A resolver at an endpoint, whose idle connections expire after some seconds. -/
def ofEndpoint (endpoint : Endpoint) (expire : UInt64) (probesOverStream : Bool) (network : ω) :
    Proxy ω where
  endpoint := endpoint
  probesOverStream := probesOverStream
  sockets := { expire := expire.toNat * 1000 }
  streams := { expire := expire.toNat * 1000 }
  network := network

/-- How an exchange ends, if it is not abandoned, and when. -/
abbrev Answered := Option (Except Failure Message × Instant)

variable [Network ω]

/-- Sends octets and takes octets back. A TLS endpoint is asked over its streams
whatever the transport is. -/
def exchangeBytes (query : Bytes) (transport : Transport) (timeout : Nat)
    (stop : Option Instant) (now : Instant) (p : Proxy ω) :
    Option (Except Failure Reply) × Instant × Proxy ω :=
  match p.endpoint, transport with
  | .plain server, .datagram =>
    let done := Datagram.run p.sockets server query timeout stop now p.network
    (done.result, done.finished, { p with sockets := done.pool, network := done.network })
  | .plain server, .stream =>
    let done := Exchange.run p.streams server query timeout stop (Dial.plain server timeout) now
      p.network
    (done.result, done.finished, { p with streams := done.pool, network := done.network })
  | .tls server name, _ =>
    let done := Exchange.run p.streams server query timeout stop
      (Dial.secured server name timeout) now p.network
    (done.result, done.finished, { p with streams := done.pool, network := done.network })

/-- Sends a message and reads the reply. -/
def exchange (message : Message) (transport : Transport) (timeout : Nat)
    (stop : Option Instant) (now : Instant) (p : Proxy ω) : Answered × Proxy ω :=
  match message.encode with
  | .error cause => (some (.error cause, now), p)
  | .ok query =>
    let (result, finished, p) := p.exchangeBytes query transport timeout stop now
    (result.map fun result => (result.bind fun reply => Message.decode reply.bytes, finished), p)

/-- One try at a query within its scope. -/
def attempt (now : Instant) (scope : Scope) (request : Request) (preference : Preference)
    (p : Proxy ω) : Option (Attempt × Instant) × Proxy ω :=
  let (done, p) := p.exchange request.message (preference.select request.transport)
    (scope.bound now p.readTimeout) scope.stop? now
  (done.map fun (result, finished) => (.answered result, finished), p)

/-! ### Probes -/

def recordFailure (p : Proxy ω) : Proxy ω := { p with health := p.health.markFailed }

/-- Begins a probe loop, unless one runs or the resolver was stopped. -/
def requestProbe (p : Proxy ω) : Proxy ω :=
  if p.stopped then p
  else match p.health.beginProbe? with
    | some health => { p with health }
    | none => p

/-- What a reply to the probe of number `id` means. -/
def judge (id : UInt16) : Except Failure Message → Except Failure Unit
  | .error cause => .error cause
  | .ok reply =>
    if reply.id = id then .ok ()
    else .error (.invalidMessage
      ("Probe reply id " ++ toString reply.id ++ " does not match " ++ toString id))

/-- One probe, of a number of its own. A good one clears the failures and ends the
loop; any other is a failure more. -/
def probe (id : UInt16) (now : Instant) (p : Proxy ω) : Instant × Proxy ω :=
  let (done, p) := p.exchange (Message.probe id)
    (if p.probesOverStream then .stream else .datagram) p.readTimeout none now
  match done with
  | none => (now, p)
  | some (result, finished) => (finished, match judge id result with
    | .ok () => { p with health := p.health.markHealthy.endProbe }
    | .error _ => { p with health := p.health.markFailed })

/-- The end of a probe loop, which gives back the slot. -/
def leave (p : Proxy ω) : Proxy ω := { p with health := p.health.endProbe }

/-- The rounds of a probe loop, up to a number of them, until a probe is good or
`enough` has happened. Between two rounds the interval passes, unless the resolver was
stopped: then the loop ends. -/
def probeRounds (ids : Nat → UInt16) (enough : Proxy ω → Bool) :
    Nat → Instant → Proxy ω → Instant × Proxy ω
  | 0, now, p => (now, p)
  | rounds + 1, now, p =>
    if enough p || !p.health.probing then (now, p)
    else
      let (now, p) := p.probe (ids rounds) now
      if enough p || !p.health.probing then (now, p)
      else if p.stopped then (now, p.leave)
      else probeRounds ids enough rounds (now + p.health.interval.toNat) p

/-- Closes all that is idle. -/
def closeIdle (now : Instant) (p : Proxy ω) : Proxy ω :=
  let server := p.endpoint.address
  let network := (p.sockets.idle server).foldl
    (fun network c => DatagramNetwork.close c.stream now network) p.network
  let network := (p.streams.idle server).foldl
    (fun network c => StreamNetwork.drop c.stream now network) network
  { p with sockets := p.sockets.clear, streams := p.streams.clear, network }

/-- No probe loop begins any more. One that runs ends by itself, at its next pause. -/
def stop (now : Instant) (p : Proxy ω) : Proxy ω := { p.closeIdle now with stopped := true }

end Proxy

instance {ω : Type} [Network ω] : Resolver (Proxy ω) where
  address p := p.endpoint.text
  isDown maxFails p := p.health.isDown maxFails
  attempt := Proxy.attempt
  recordFailure := Proxy.recordFailure
  requestProbe := Proxy.requestProbe
  start interval p := { p with health := p.health.setInterval interval }
  stop := Proxy.stop

end DnsFanout
