import DnsFanout.Settings.Basic
import DnsFanout.Toml.Document
import DnsFanout.Toml.Fields

/-! Settings from a TOML document. What is not mentioned keeps its default, and
unknown keys are passed over. -/

namespace DnsFanout

open Toml

def RotationKind.words : List (String × RotationKind) :=
  [.random, .roundRobin, .sequential].map fun k => (k.text, k)

def LogFormat.words : List (String × LogFormat) :=
  [.text, .json].map fun f => (f.word, f)

namespace ListenSettings

def fieldNames : List String := ["dns_port", "bind_address"]

def ofValue? (v : Value) : Option ListenSettings := do
  let fields ← v.fields? fieldNames
  let default : ListenSettings := {}
  return {
    service := ← fields.field "dns_port" Value.word16? default.service
    host := ← fields.field "bind_address" Value.string? default.host }

end ListenSettings

namespace ForwardSettings

def fieldNames : List String :=
  ["from", "to", "except", "max_fails", "health_check_interval_ms", "expire_secs", "force_tcp",
    "prefer_udp", "tls_servername", "policy", "query_timeout_ms"]

def ofValue? (v : Value) : Option ForwardSettings := do
  let fields ← v.fields? fieldNames
  let default : ForwardSettings := {}
  return {
    zone := ← fields.field "from" Value.string? default.zone
    endpoints := ← fields.field "to" Value.strings? default.endpoints
    excluded := ← fields.field "except" Value.strings? default.excluded
    maxFails := ← fields.field "max_fails" Value.word32? default.maxFails
    probeInterval :=
      ← fields.field "health_check_interval_ms" Value.word64? default.probeInterval
    expire := ← fields.field "expire_secs" Value.word64? default.expire
    forceStream := ← fields.field "force_tcp" Value.boolean? default.forceStream
    preferDatagram := ← fields.field "prefer_udp" Value.boolean? default.preferDatagram
    serverName :=
      ← fields.field "tls_servername" (fun v => v.string?.map some) default.serverName
    rotation := ← fields.field "policy" (Value.word? RotationKind.words) default.rotation
    timeout := ← fields.field "query_timeout_ms" Value.word64? default.timeout }

end ForwardSettings

namespace LogSettings

def fieldNames : List String := ["level", "format"]

def ofValue? (v : Value) : Option LogSettings := do
  let fields ← v.fields? fieldNames
  let default : LogSettings := {}
  return {
    level := ← fields.field "level" Value.string? default.level
    format := ← fields.field "format" (Value.word? LogFormat.words) default.format }

end LogSettings

namespace Settings

def sectionNames : List String := ["server", "forward", "logging"]

def ofTable? (t : Table) : Option Settings := do
  let sections ← Value.fields? sectionNames (.table .header t)
  return {
    listen := ← sections.field "server" ListenSettings.ofValue? {}
    forward := ← sections.field "forward" ForwardSettings.ofValue? {}
    log := ← sections.field "logging" LogSettings.ofValue? {} }

/-- Reads the settings from the text of a document. -/
def read (text : String) : Except SettingsError Settings :=
  match (Toml.parse text).bind ofTable? with
  | some settings => .ok settings
  | none => .error .malformed

end Settings

end DnsFanout
