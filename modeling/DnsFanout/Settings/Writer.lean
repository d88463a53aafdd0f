import DnsFanout.Settings.Basic
import DnsFanout.Toml.Writer

/-! The text of settings: every field under its section, a server name only if
there is one. -/

namespace DnsFanout

open Toml

def ListenSettings.toChars (s : ListenSettings) : List Char :=
  header "server" ++
    assignment "dns_port" (writeNumber s.service.toNat) ++
    assignment "bind_address" (writeText s.host)

def ForwardSettings.toChars (s : ForwardSettings) : List Char :=
  header "forward" ++
    assignment "from" (writeText s.zone) ++
    assignment "to" (writeTexts s.endpoints) ++
    assignment "except" (writeTexts s.excluded) ++
    assignment "max_fails" (writeNumber s.maxFails.toNat) ++
    assignment "health_check_interval_ms" (writeNumber s.probeInterval.toNat) ++
    assignment "expire_secs" (writeNumber s.expire.toNat) ++
    assignment "force_tcp" (writeBoolean s.forceStream) ++
    assignment "prefer_udp" (writeBoolean s.preferDatagram) ++
    (match s.serverName with
      | none => []
      | some name => assignment "tls_servername" (writeText name)) ++
    assignment "policy" (writeText s.rotation.text) ++
    assignment "query_timeout_ms" (writeNumber s.timeout.toNat)

def LogSettings.toChars (s : LogSettings) : List Char :=
  header "logging" ++
    assignment "level" (writeText s.level) ++
    assignment "format" (writeText s.format.word)

namespace Settings

def toChars (s : Settings) : List Char :=
  s.listen.toChars ++ '\n' :: s.forward.toChars ++ '\n' :: s.log.toChars

def text (s : Settings) : String := String.ofList s.toChars

end Settings

end DnsFanout
