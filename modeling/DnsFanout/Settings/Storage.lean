import DnsFanout.Settings.Reader
import DnsFanout.Settings.Writer

/-! Settings in files, and the words of the command line that replace them. -/

namespace DnsFanout

/-- A store of texts by path. What fails gives its reason. -/
class Storage (m : Type → Type) where
  contains : String → m Bool
  read : String → m (Except String String)
  write : String → String → m (Except String Unit)

/-- Settings that are given elsewhere than in a file. -/
structure Overrides where
  service : Option UInt16 := none
  host : Option String := none
  level : Option String := none
  /-- An empty list replaces nothing. -/
  endpoints : List String := []
deriving DecidableEq, Repr

namespace Settings

def override (o : Overrides) (s : Settings) : Settings where
  listen := ⟨o.service.getD s.listen.service, o.host.getD s.listen.host⟩
  forward := { s.forward with
    endpoints := if o.endpoints = [] then s.forward.endpoints else o.endpoints }
  log := { s.log with level := o.level.getD s.log.level }

/-- Where settings are looked for if no path is given, the first place first. -/
def usualPaths : List String := ["fanout-dns.toml", "/etc/fanout-dns/config.toml"]

variable {m : Type → Type} [Monad m] [Storage m]

def loadPath (path : String) : m (Except SettingsError Settings) := do
  match ← Storage.read path with
  | .ok text => return Settings.read text
  | .error reason => return .error (.unreadable path reason)

/-- The first of some paths that is there. -/
def findPath : List String → m (Option String)
  | [] => return none
  | path :: rest => do
    if ← Storage.contains path then return some path else findPath rest

/-- The settings in the file at `path`, or at the first usual path that is there,
or else the defaults; then the overrides. -/
def load (path : Option String) (o : Overrides) : m (Except SettingsError Settings) := do
  let found ← match path with
    | some path => pure (some path)
    | none => findPath usualPaths
  let loaded ← match found with
    | some path => loadPath path
    | none => pure (.ok {})
  return loaded.map (override o)

def save (path : String) (s : Settings) : m (Except SettingsError Unit) := do
  match ← Storage.write path s.text with
  | .ok () => return .ok ()
  | .error reason => return .error (.unwritable path reason)

end Settings

end DnsFanout
