import DnsFanout.Service

/-! The command line. Arguments are taken in order; the first fault, or the first
wish for help or for the version, decides. -/

namespace DnsFanout

namespace CommandLine

/-- The options that take a value. -/
inductive Key
  | config
  | service
  | bind
  | level
  | endpoint
deriving DecidableEq, Repr

namespace Key

def all : List Key := [config, service, bind, level, endpoint]

def short? : Key → Option Char
  | config => some 'c'
  | service => some 'd'
  | bind => some 'b'
  | level => none
  | endpoint => some 'u'

def long : Key → String
  | config => "config"
  | service => "dns-port"
  | bind => "bind"
  | level => "log-level"
  | endpoint => "upstream"

/-- What the value stands for. -/
def hint : Key → String
  | config => "FILE"
  | service => "DNS_PORT"
  | bind => "BIND"
  | level => "LOG_LEVEL"
  | endpoint => "ADDR"

/-- The option with its value, as messages show it. -/
def usage (k : Key) : String := "--" ++ k.long ++ " <" ++ k.hint ++ ">"

end Key

inductive Misuse
  | unexpected (argument : String)
  | missingValue (key : Key)
  | repeated (key : Key)
  | badNumber (value : String)
  | unneededValue (flag : String)
deriving DecidableEq, Repr

def Misuse.message : Misuse → String
  | unexpected argument => "unexpected argument '" ++ argument ++ "' found"
  | missingValue key => "a value is required for '" ++ key.usage ++ "' but none was supplied"
  | repeated key => "the argument '" ++ key.usage ++ "' cannot be used multiple times"
  | badNumber value =>
    "invalid value '" ++ value ++ "' for '" ++ Key.usage .service ++ "': not a number up to 65535"
  | unneededValue flag => "unexpected value for '" ++ flag ++ "' found; no more were expected"

/-- What the arguments ask for. -/
structure Options where
  path : Option String := none
  overrides : Overrides := {}
deriving DecidableEq, Repr

/-- Why the arguments end before the program begins. -/
inductive Halt
  | help
  | version
  | misuse (cause : Misuse)
deriving DecidableEq, Repr

/-- A whole number with a sign or without. -/
def readInt? (s : List Char) : Option Int :=
  match s with
  | '-' :: digits => (Text.readNat? 10 digits).map fun n => -(n : Int)
  | '+' :: digits => (Text.readNat? 10 digits).map (↑·)
  | digits => (Text.readNat? 10 digits).map (↑·)

def readService? (value : String) : Option UInt16 :=
  (readInt? value.toList).bind fun n =>
    if 0 ≤ n ∧ n < 65536 then some n.toNat.toUInt16 else none

/-- Gives an option that was not given before its value. -/
def once {α : Type} (key : Key) (old : Option α) (value : α) : Except Halt (Option α) :=
  if old.isSome then .error (.misuse (.repeated key)) else .ok (some value)

def Options.set (o : Options) (key : Key) (value : String) : Except Halt Options :=
  match key with
  | .config => (once key o.path value).map fun path => { o with path }
  | .service =>
    if o.overrides.service.isSome then .error (.misuse (.repeated key))
    else match readService? value with
      | some n => .ok { o with overrides.service := some n }
      | none => .error (.misuse (.badNumber value))
  | .bind => (once key o.overrides.host value).map fun host => { o with overrides.host := host }
  | .level =>
    (once key o.overrides.level value).map fun level => { o with overrides.level := level }
  | .endpoint => .ok { o with overrides.endpoints := o.overrides.endpoints ++ [value] }

/-- An argument that may be the value of the option before it. -/
def isValue (argument : String) : Bool := argument = "-" || !argument.startsWith "-"

/-- What an argument with a hyphen in front is. -/
inductive Flag
  | option (key : Key) (attached : Option String)
  | halt (cause : Halt)

def readLong (argument : String) (body : List Char) : Flag :=
  let name := String.ofList (body.takeWhile (· ≠ '='))
  let attached := match body.dropWhile (· ≠ '=') with
    | [] => none
    | _ :: value => some (String.ofList value)
  let bare (halt : Halt) : Flag :=
    .halt (if attached.isSome then .misuse (.unneededValue ("--" ++ name)) else halt)
  if name = "help" then bare .help
  else if name = "version" then bare .version
  else match Key.all.find? (·.long = name) with
    | some key => .option key attached
    | none => .halt (.misuse (.unexpected argument))

/-- A short option; its value may follow at once, with an equals sign or without. -/
def readShort (argument : String) (c : Char) (rest : List Char) : Flag :=
  if c = 'h' then .halt .help
  else if c = 'V' then .halt .version
  else match Key.all.find? (·.short? = some c) with
    | some key => .option key (match rest with
      | [] => none
      | '=' :: value => some (String.ofList value)
      | value => some (String.ofList value))
    | none => .halt (.misuse (.unexpected argument))

/-- The reading of one argument by itself. -/
def readFlag (argument : String) : Flag :=
  match argument.toList with
  | '-' :: '-' :: body => readLong argument body
  | '-' :: c :: rest => readShort argument c rest
  | _ => .halt (.misuse (.unexpected argument))

def parseFrom (o : Options) : List String → Except Halt Options
  | [] => .ok o
  | "--" :: [] => .ok o
  | "--" :: argument :: _ => .error (.misuse (.unexpected argument))
  | argument :: rest =>
    match readFlag argument with
    | .halt cause => .error cause
    | .option key (some value) => do parseFrom (← o.set key value) rest
    | .option key none =>
      match rest with
      | [] => .error (.misuse (.missingValue key))
      | value :: rest =>
        if isValue value then do parseFrom (← o.set key value) rest
        else .error (.misuse (.missingValue key))

def parse (arguments : List String) : Except Halt Options := parseFrom {} arguments

/-! ### The program -/

def version : String := "fanout-dns 0.3.0"

def usage : String := "Usage: fanout-dns [OPTIONS]"

def help : String :=
  "Fanout DNS - forwards every query to all upstreams and merges the answers\n\n" ++
    usage ++ "\n\nOptions:\n" ++
    "  -c, --config <FILE>          Configuration file path\n" ++
    "  -d, --dns-port <DNS_PORT>    DNS server port\n" ++
    "  -b, --bind <BIND>            Bind address\n" ++
    "      --log-level <LOG_LEVEL>  Log level (trace, debug, info, warn, error)\n" ++
    "  -u, --upstream <ADDR>        Upstream server, repeatable; replaces `forward.to` from " ++
    "the file\n" ++
    "  -h, --help                   Print help\n" ++
    "  -V, --version                Print version"

/-- The end of the program: its code and what it prints. -/
structure Exit where
  code : Nat
  output : String := ""
  errors : String := ""
deriving DecidableEq, Repr

def Halt.exit : Halt → Exit
  | help => ⟨0, CommandLine.help ++ "\n", ""⟩
  | version => ⟨0, CommandLine.version ++ "\n", ""⟩
  | misuse cause =>
    ⟨2, "", "error: " ++ cause.message ++ "\n\n" ++ usage ++
      "\n\nFor more information, try '--help'.\n"⟩

def Exit.failed (message : String) : Exit := ⟨1, "", "Error: " ++ message ++ "\n"⟩

/-- A program that is ready to serve. -/
structure Ready (ω : Type) where
  address : Net.SocketAddress
  responder : Responder (Forwarder (Proxy ω) Empty)

/-- Everything up to the first query: arguments, settings, the forwarder, and the
address to listen on, which `listen` may refuse with a reason. -/
def start {m : Type → Type} [Monad m] [Storage m] {ω : Type} [Net.Network ω]
    (draws : Nat → Nat) (network : ω) (listen : Net.SocketAddress → m (Except String Unit))
    (arguments : List String) : m (Except Exit (Ready ω)) := do
  match parse arguments with
  | .error halt => return .error halt.exit
  | .ok o =>
    match ← Settings.prepare o.path o.overrides with
    | .error cause => return .error (.failed cause.message)
    | .ok s =>
      match s.responder draws network, Net.IPAddress.parse? s.listen.host.toList with
      | .error cause, _ => return .error (.failed cause.message)
      | .ok _, none => return .error (.failed "invalid IP address syntax")
      | .ok responder, some host =>
        let address := ⟨host, s.listen.service⟩
        match ← listen address with
        | .error reason => return .error (.failed reason)
        | .ok () => return .ok ⟨address, responder⟩

end CommandLine

end DnsFanout
