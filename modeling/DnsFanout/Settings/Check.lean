import DnsFanout.Endpoint
import DnsFanout.Settings.Basic

/-! The checks that settings have to pass before they are used. The first fault
found is the one reported. -/

namespace DnsFanout

open Text

def require (holds : Bool) (reason : String) : Except SettingsError Unit :=
  if holds then .ok () else .error (.invalid reason)

/-- The dots at the end do not count. -/
def trimDots (s : List Char) : List Char := (s.reverse.dropWhile (· = '.')).reverse

/-- The parts of a text between dots. -/
def splitDots (s : List Char) : List (List Char) := s.splitOnP (· = '.')

def checkZone (zone : String) : Except SettingsError Unit :=
  if zone = "" then .error (.invalid "Empty zone name")
  else if zone = "." then .ok ()
  else do
    let trimmed := trimDots zone.toList
    require (byteCount trimmed ≤ 253) ("Zone '" ++ zone ++ "' is too long")
    require ((splitDots trimmed).all fun label => label ≠ [] && byteCount label ≤ 63)
      ("Zone '" ++ zone ++ "' has an invalid label")

namespace ForwardSettings

/-- How many endpoints one forwarder may have. -/
def maxEndpoints : Nat := 15

/-- An endpoint of the list; a configured server name goes to TLS endpoints. -/
def readEndpoint (s : ForwardSettings) (text : String) : Except SettingsError Endpoint :=
  match Endpoint.parse text with
  | .error e => .error (.invalid ("Invalid upstream '" ++ text ++ "': " ++ e.message))
  | .ok e => .ok (match s.serverName with
    | none => e
    | some name => e.withServerName name)

def readEndpoints (s : ForwardSettings) : Except SettingsError (List Endpoint) :=
  s.endpoints.mapM s.readEndpoint

def check (s : ForwardSettings) : Except SettingsError Unit := do
  require (s.endpoints ≠ []) "No upstream servers configured"
  require (s.endpoints.length ≤ maxEndpoints)
    ("More than " ++ toString maxEndpoints ++ " upstream servers configured (" ++
      toString s.endpoints.length ++ ")")
  require (!(s.forceStream && s.preferDatagram)) "force_tcp and prefer_udp are mutually exclusive"
  require (s.probeInterval ≠ 0) "health_check_interval_ms must be greater than 0"
  require (s.timeout ≠ 0) "query_timeout_ms must be greater than 0"
  checkZone s.zone
  s.excluded.forM checkZone
  discard s.readEndpoints

end ForwardSettings

def Settings.check (s : Settings) : Except SettingsError Unit := do
  require (s.listen.service ≠ 0) "DNS port cannot be 0"
  require (Net.IPAddress.parse? s.listen.host.toList).isSome
    ("Invalid bind address '" ++ s.listen.host ++ "'")
  s.forward.check

end DnsFanout
