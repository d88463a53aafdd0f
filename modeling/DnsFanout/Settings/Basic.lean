import DnsFanout.Rotation

/-! What can be configured, and what happens when nothing is. -/

namespace DnsFanout

structure ListenSettings where
  service : UInt16 := 53
  host : String := "0.0.0.0"
deriving DecidableEq, Repr

structure ForwardSettings where
  /-- Only names in this zone are forwarded. -/
  zone : String := "."
  endpoints : List String := []
  /-- Zones whose names are not forwarded. -/
  excluded : List String := []
  /-- A resolver with more failures is down; zero means never. -/
  maxFails : UInt32 := 2
  probeInterval : UInt64 := 500
  /-- Seconds that a connection stays idle. -/
  expire : UInt64 := 10
  forceStream : Bool := false
  preferDatagram : Bool := false
  /-- The server name for every TLS endpoint. -/
  serverName : Option String := none
  rotation : RotationKind := .random
  /-- Milliseconds that one query may take. -/
  timeout : UInt64 := 5000
deriving DecidableEq, Repr

inductive LogFormat
  | text
  | json
deriving DecidableEq, Repr

def LogFormat.word : LogFormat → String
  | text => "text"
  | json => "json"

structure LogSettings where
  level : String := "info"
  format : LogFormat := .text
deriving DecidableEq, Repr

structure Settings where
  listen : ListenSettings := {}
  forward : ForwardSettings := {}
  log : LogSettings := {}
deriving DecidableEq, Repr

inductive SettingsError
  | unreadable (path reason : String)
  | unwritable (path reason : String)
  | malformed
  | invalid (reason : String)
deriving DecidableEq, Repr

def SettingsError.message : SettingsError → String
  | unreadable path reason => "Failed to read config file " ++ path ++ ": " ++ reason
  | unwritable path reason => "Failed to write config file " ++ path ++ ": " ++ reason
  | malformed => "Failed to parse config"
  | invalid reason => "Configuration validation error: " ++ reason

end DnsFanout
