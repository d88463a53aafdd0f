import DnsFanout.Health
import DnsFanout.Resolver

/-! Resolvers that follow a script, for trying a forwarder without a network. They
record what they are asked. -/

namespace DnsFanout.Rehearsal

/-- A record of an answer; without an owner of its own it takes the name asked for. -/
structure Line where
  record : Record
  named : Bool

inductive Cue
  /-- An answer to the request, its number raised by `shift`. -/
  | answer (shift : UInt16) (truncated : Bool) (lines : List Line)
  /-- An answer that comes whole over a stream only. -/
  | whole (lines : List Line)
  | reply (message : Message)
  | fail (cause : Failure)
  | hang
  | crash

structure Step where
  cue : Cue
  /-- Milliseconds before anything happens. -/
  delay : Nat

def Line.toRecord (line : Line) (asked : Question) : Record :=
  if line.named then line.record else { line.record with owner := asked.name }

/-- The reply to a request; without a question it carries no records. -/
def answer (request : Request) (shift : UInt16) (truncated : Bool) (lines : List Line) :
    Message where
  id := request.message.id + shift
  response := true
  truncated := truncated
  recursionDesired := true
  recursionAvailable := true
  questions := request.question?.toList
  answers := (request.question?.map fun q => lines.map (·.toRecord q)).getD []

/-- What an attempt comes to; none if it never ends. -/
def Cue.attempt (request : Request) (preference : Preference) : Cue → Option Attempt
  | answer shift truncated lines =>
    some (.answered (.ok (Rehearsal.answer request shift truncated lines)))
  | whole lines =>
    some (.answered (.ok (if preference.forceStream then Rehearsal.answer request 0 false lines
      else Rehearsal.answer request 0 true [])))
  | reply message => some (.answered (.ok message))
  | fail cause => some (.answered (.error cause))
  | hang => none
  | crash => some (.crashed "scripted panic")

structure Resolver where
  address : String
  script : List Step
  fallback : Step
  /-- Down or not regardless of failures. -/
  down : Option Bool := none
  health : Health := {}
  calls : Nat := 0
  failures : Nat := 0
  probes : Nat := 0
  probeStarts : Nat := 0
  interval : Option UInt64 := none
  stopped : Bool := false
  /-- The preferences of all attempts, the first in front. -/
  sent : List Preference := []

namespace Resolver

def isDown (maxFails : UInt32) (r : Resolver) : Bool :=
  r.down.getD (r.health.isDown maxFails)

def recordFailure (r : Resolver) : Resolver :=
  { r with failures := r.failures + 1, health := r.health.markFailed }

def requestProbe (r : Resolver) : Resolver :=
  match r.health.beginProbe? with
  | some health => { r with probes := r.probes + 1, probeStarts := r.probeStarts + 1, health }
  | none => { r with probes := r.probes + 1 }

/-- The resolver is healthy again, and its probe loop ends. -/
def recover (r : Resolver) : Resolver :=
  { r with health := r.health.markHealthy.endProbe }

def attempt (now : Instant) (request : Request) (preference : Preference) (r : Resolver) :
    Option (Attempt × Instant) × Resolver :=
  let (step, script) := match r.script with
    | [] => (r.fallback, [])
    | step :: rest => (step, rest)
  ((step.cue.attempt request preference).map (·, now + step.delay),
    { r with script, calls := r.calls + 1, sent := r.sent ++ [preference] })

end Resolver

instance : DnsFanout.Resolver Resolver where
  address := Resolver.address
  isDown := Resolver.isDown
  attempt now _ := Resolver.attempt now
  recordFailure := Resolver.recordFailure
  requestProbe := Resolver.requestProbe
  start interval r := { r with interval := some interval, health := r.health.setInterval interval }
  stop _ r := { r with stopped := true }

end DnsFanout.Rehearsal
