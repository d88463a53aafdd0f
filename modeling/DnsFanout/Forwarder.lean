import DnsFanout.Admission
import DnsFanout.Handler
import DnsFanout.Rotation
import DnsFanout.Worker

/-! The forwarder: an admitted query goes to every live resolver at once, and the
addresses of all answers make one reply. -/

namespace DnsFanout

/-- A forwarder with resolvers of type `ρ` and, after it in the chain, a handler of
type `η`. -/
structure Forwarder (ρ η : Type) where
  resolvers : List ρ := []
  rotation : Rotation
  admission : Admission := {}
  maxFails : UInt32 := 2
  preference : Preference := {}
  /-- Milliseconds between the health probes of a resolver. -/
  probeInterval : UInt64 := 500
  next : Option η := none

namespace Forwarder

variable {ρ η : Type} [Resolver ρ]

def name : String := "forward"

/-- Registers a resolver and starts it. -/
def add (f : Forwarder ρ η) (r : ρ) : Forwarder ρ η :=
  { f with resolvers := f.resolvers ++ [Resolver.start f.probeInterval r] }

/-- A forwarder without resolvers answers nothing. -/
def ready (f : Forwarder ρ η) : Except Failure Unit :=
  if f.resolvers.isEmpty then .error .noResolver else .ok ()

def stop (now : Instant) (f : Forwarder ρ η) : Forwarder ρ η :=
  { f with resolvers := f.resolvers.map (Resolver.stop now) }

/-- The resolvers with their places, in the order of the next query. -/
def arrange (f : Forwarder ρ η) : List (ρ × Nat) × Forwarder ρ η :=
  let (order, rotation) := f.rotation.arrange f.resolvers.zipIdx
  (order, { f with rotation })

/-- The end of a query at every resolver that was asked. -/
structure FanOut (ρ η : Type) where
  result : Except Failure Message
  finished : Instant
  forwarder : Forwarder ρ η

/-- Puts resolvers back in their places. -/
def restore (resolvers : List ρ) (runs : List (Worker.Run ρ × Nat)) : List ρ :=
  runs.foldl (fun rs run => rs.set run.2 run.1.resolver) resolvers

/-- The outcomes in the order in which the workers ended; of those that ended at
one instant the earlier in the rotation comes first. -/
def outcomes (runs : List (Worker.Run ρ × Nat)) : List Outcome :=
  (runs.mergeSort fun a b => a.1.finished ≤ b.1.finished).map
    fun run => run.1.ending.outcome (run.2 + 1)

/-- Asks every resolver that is not down, and waits for all of them. -/
def forward (f : Forwarder ρ η) (now : Instant) (scope : Scope) (request : Request) :
    Option (FanOut ρ η) :=
  let (order, f) := f.arrange
  let live := order.filter fun place => !Resolver.isDown f.maxFails place.1
  if live.isEmpty then some ⟨.error .noHealthyResolver, now, f⟩
  else do
    let runs ← live.mapM fun place =>
      (Worker.run f.maxFails scope request ⟨f.preference, 0, 0⟩ now place.1).map (·, place.2)
    return {
      result := merge (outcomes runs)
      finished := runs.foldl (fun t run => max t run.1.finished) now
      forwarder := { f with resolvers := restore f.resolvers runs } }

/-- Answers an admitted query and passes any other on. A reply that the sink
refuses is lost. -/
def process [Handler η] (now : Instant) (scope : Scope) (sink : Sink) (request : Request)
    (f : Forwarder ρ η) : Option (Handled (Forwarder ρ η)) :=
  if f.admission.admitsRequest request then do
    let done ← f.forward now scope request
    return match done.result with
      | .ok reply => ⟨.ok ResponseCode.noError, sink.offer [] reply, done.finished, done.forwarder⟩
      | .error cause => ⟨.error cause, [], done.finished, done.forwarder⟩
  else match f.next with
    | some next => do
      let done ← Handler.process now scope sink request next
      return { done with handler := { f with next := some done.handler } }
    | none => some ⟨.error (.noNextHandler name), [], now, f⟩

instance [Handler η] : Handler (Forwarder ρ η) where
  name _ := name
  process := process

end Forwarder

end DnsFanout
