import DnsFanout.Request
import DnsFanout.Scope

/-! Links of the chain that answers queries. A handler that returns a code has
written one reply; a handler that fails has written none. -/

namespace DnsFanout

/-- Where a reply is written: after what was taken before, a message is taken or
refused. -/
abbrev Sink := List Message → Message → Option Failure

namespace Sink

/-- Takes every message. -/
def taking : Sink := fun _ _ => none

/-- The messages taken, after one more is offered. -/
def offer (sink : Sink) (written : List Message) (m : Message) : List Message :=
  match sink written m with
  | none => written ++ [m]
  | some _ => written

end Sink

/-- A query that a handler is done with, and the handler for the next. -/
structure Handled (η : Type) where
  code : Except Failure ResponseCode
  written : List Message
  finished : Instant
  handler : η

class Handler (η : Type) where
  name : η → String
  /-- None if the query is never done with. -/
  process : Instant → Scope → Sink → Request → η → Option (Handled η)

/-- No handler at all, as the end of a chain. -/
instance : Handler Empty where
  name := nofun
  process _ _ _ _ := nofun

end DnsFanout
