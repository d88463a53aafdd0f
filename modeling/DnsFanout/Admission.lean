import DnsFanout.Failure
import DnsFanout.Name.Presentation
import DnsFanout.Request

/-! The names that a forwarder answers for: those of one zone, less some
excluded zones. The apex of the zone is never excluded. -/

namespace DnsFanout

/-- A zone name in a configuration is absolute, with a final dot or without. -/
def Name.readZone (s : String) : Except Failure Name :=
  match Name.parse s with
  | .ok n => .ok n.toAbsolute
  | .error e => .error (.invalidName ("Invalid zone '" ++ s ++ "': " ++ e.message))

structure Admission where
  zone : Name := Name.root
  excluded : List Name := []

namespace Admission

/-- The excluded zones are read before the zone. -/
def read (zone : String) (excluded : List String) : Except Failure Admission := do
  let excluded ← excluded.mapM Name.readZone
  return ⟨← Name.readZone zone, excluded⟩

def admits (a : Admission) (name : Name) : Bool :=
  a.zone.isZoneOf name &&
    (name.agrees a.zone || !a.excluded.any (·.isZoneOf name))

/-- A query without a question is not admitted. -/
def admitsRequest (a : Admission) (r : Request) : Bool :=
  r.question?.any fun q => a.admits q.name

end Admission

end DnsFanout
