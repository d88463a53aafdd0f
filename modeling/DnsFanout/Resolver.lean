import DnsFanout.Request
import DnsFanout.Scope

/-! Resolvers as the forwarder sees them. -/

namespace DnsFanout

/-- How an attempt at a resolver ends; a crash ends the worker as well. -/
inductive Attempt
  | answered (result : Except Failure Message)
  | crashed (detail : String)

class Resolver (ρ : Type) where
  address : ρ → String
  isDown : UInt32 → ρ → Bool
  /-- Sends the request once. Gives how and when the attempt ends, if it ends before
  the scope does, and the resolver after it. -/
  attempt : Instant → Scope → Request → Preference → ρ → Option (Attempt × Instant) × ρ
  recordFailure : ρ → ρ
  /-- Asks for a probe of the resolver's health, outside any query. -/
  requestProbe : ρ → ρ
  /-- Called once, with the time between probes in milliseconds. -/
  start : UInt64 → ρ → ρ
  stop : Instant → ρ → ρ

end DnsFanout
