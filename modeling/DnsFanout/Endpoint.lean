import DnsFanout.Net.Address
import DnsFanout.Text.Blank

/-! Endpoints as they are written in the list of resolvers: `dns://` in front
may be left out, `tls://` asks for DNS over TLS and may name the server after a
`#`. -/

namespace DnsFanout

open Text Net

/-- Where a resolver listens. A plain endpoint takes datagrams and streams, a TLS
endpoint only streams, certified for the server name. -/
inductive Endpoint
  | plain (address : SocketAddress)
  | tls (address : SocketAddress) (serverName : String)
deriving DecidableEq, Repr

namespace Endpoint

def defaultService : UInt16 := 53

def defaultTlsService : UInt16 := 853

def address : Endpoint → SocketAddress
  | plain a => a
  | tls a _ => a

def serverName? : Endpoint → Option String
  | plain _ => none
  | tls _ name => some name

def isTls : Endpoint → Bool
  | plain _ => false
  | tls _ _ => true

/-- A plain endpoint has no server name to replace. -/
def withServerName (name : String) : Endpoint → Endpoint
  | plain a => plain a
  | tls a _ => tls a name

inductive ParseError
  | blank
  | emptyServerName (text : String)
  | unsupportedScheme (text : String)
  | malformed (address : String)
  | notAnAddress (address : String)
  | inTls (cause : ParseError)
deriving DecidableEq, Repr

def ParseError.message : ParseError → String
  | blank => "Empty upstream address"
  | emptyServerName s => "Empty TLS server name in '" ++ s ++ "'"
  | unsupportedScheme s =>
    "Unsupported upstream scheme in '" ++ s ++ "'. Expected 'dns://' or 'tls://'"
  | malformed s => "Invalid address '" ++ s ++ "'"
  | notAnAddress s => "Upstream '" ++ s ++ "' is not an IP address"
  | inTls cause => "Invalid TLS upstream: " ++ cause.message

/-- Splits an address text into host and service number. A text with several
colons outside brackets is a host alone. -/
def splitService? (s : List Char) : Option (List Char × Option UInt16) :=
  match s with
  | '[' :: rest =>
    match rest.dropWhile (· ≠ ']') with
    | [] => none
    | _ :: [] => some (rest.takeWhile (· ≠ ']'), none)
    | _ :: ':' :: number => (readWord16? number).map (rest.takeWhile (· ≠ ']'), some ·)
    | _ => none
  | _ =>
    if 1 < s.count ':' then some (s, none)
    else match s.dropWhile (· ≠ ':') with
      | [] => some (s, none)
      | _ :: number => (readWord16? number).map (s.takeWhile (· ≠ ':'), some ·)

def parseAddress (s : List Char) (fallback : UInt16) : Except ParseError SocketAddress :=
  match splitService? s with
  | none => .error (.malformed (String.ofList s))
  | some (host, service) =>
    match IPAddress.parse? host with
    | none => .error (.notAnAddress (String.ofList s))
    | some ip => .ok ⟨ip, service.getD fallback⟩

/-- What follows `tls://`; `whole` is the text that a fault quotes. -/
def parseTls (whole rest : List Char) : Except ParseError Endpoint :=
  let address := rest.takeWhile (· ≠ '#')
  match rest.dropWhile (· ≠ '#') with
  | [_] => .error (.emptyServerName (String.ofList whole))
  | mark =>
    match parseAddress address defaultTlsService with
    | .error cause => .error (.inTls cause)
    | .ok a => .ok <| .tls a <| match mark with
      | [] => a.host.text
      | _ :: name => String.ofList name

def parseChars (text : List Char) : Except ParseError Endpoint :=
  let s := trim text
  if s = [] then .error .blank
  else match after? "tls://".toList s with
    | some rest => parseTls s rest
    | none =>
      let rest := (after? "dns://".toList s).getD s
      if occurs "://".toList rest then .error (.unsupportedScheme (String.ofList s))
      else (parseAddress rest defaultService).map .plain

/-- Reads one endpoint; blank space around it is ignored. -/
def parse (s : String) : Except ParseError Endpoint := parseChars s.toList

def toChars : Endpoint → List Char
  | plain a => "dns://".toList ++ a.toChars
  | tls a name => "tls://".toList ++ a.toChars ++ '#' :: name.toList

/-- The full written form, with scheme, service number and server name. -/
def text (e : Endpoint) : String := String.ofList e.toChars

end Endpoint

end DnsFanout
