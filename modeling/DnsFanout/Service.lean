import DnsFanout.Forwarder
import DnsFanout.Proxy
import DnsFanout.Responder
import DnsFanout.Settings.Check
import DnsFanout.Settings.Storage

/-! The service that settings describe: one resolver for each endpoint behind a
forwarder, and a responder in front of it. -/

namespace DnsFanout

inductive StartError
  | settings (cause : SettingsError)
  | failure (cause : Failure)
deriving DecidableEq, Repr

def StartError.message : StartError → String
  | settings cause => cause.message
  | failure cause => cause.message

namespace Settings

variable {ω : Type} [Net.Network ω]

def preference (s : Settings) : Preference :=
  ⟨s.forward.forceStream, s.forward.preferDatagram⟩

/-- A forwarder without resolvers. -/
def emptyForwarder {ρ : Type} (draws : Nat → Nat) (s : Settings) :
    Except Failure (Forwarder ρ Empty) := do
  let admission ← Admission.read s.forward.zone s.forward.excluded
  return {
    rotation := Rotation.ofKind draws s.forward.rotation
    admission := admission
    maxFails := s.forward.maxFails
    preference := s.preference
    probeInterval := s.forward.probeInterval }

/-- The resolver at an endpoint. Health is probed over streams if queries are forced
to use them. -/
def proxy (network : ω) (s : Settings) (endpoint : Endpoint) : Proxy ω :=
  Proxy.ofEndpoint endpoint s.forward.expire s.forward.forceStream network

/-- The forwarder with its resolvers, in the order of their endpoints. -/
def forwarder (draws : Nat → Nat) (network : ω) (s : Settings) :
    Except StartError (Forwarder (Proxy ω) Empty) := do
  let empty ← s.emptyForwarder draws |>.mapError .failure
  let endpoints ← s.forward.readEndpoints.mapError .settings
  let full := endpoints.foldl (fun f e => f.add (s.proxy network e)) empty
  full.ready.mapError .failure
  return full

def responder (draws : Nat → Nat) (network : ω) (s : Settings) :
    Except StartError (Responder (Forwarder (Proxy ω) Empty)) :=
  (s.forwarder draws network).map fun f => ⟨f, s.forward.timeout.toNat⟩

/-- Settings that have been loaded and have passed the checks. -/
def prepare {m : Type → Type} [Monad m] [Storage m] (path : Option String) (o : Overrides) :
    m (Except SettingsError Settings) := do
  return (← load path o).bind fun s => s.check.map fun _ => s

end Settings

end DnsFanout
