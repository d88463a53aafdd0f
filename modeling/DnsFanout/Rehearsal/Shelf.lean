import DnsFanout.Settings.Storage

/-! Texts and directories in memory, by the parts of their paths from the root.
Looking up a path walks through directories; only the last part may name a text. -/

namespace DnsFanout.Rehearsal

/-- Why a path is refused. -/
inductive Refusal
  | absent
  | isDirectory
  | notDirectory
  | nameTooLong
  | zeroByte
deriving DecidableEq, Repr

def Refusal.text : Refusal → String
  | absent => "No such file or directory (os error 2)"
  | isDirectory => "Is a directory (os error 21)"
  | notDirectory => "Not a directory (os error 20)"
  | nameTooLong => "File name too long (os error 36)"
  | zeroByte => "file name contained an unexpected NUL byte"

structure Shelf where
  files : List (List String × String)

namespace Shelf

/-- The directory in which paths without a leading slash begin. -/
def working : List String := ["tmp", "work"]

/-- The directories besides the root. -/
def directories : List (List String) :=
  working :: ["bin", "boot", "dev", "etc", "home", "lib", "media", "mnt", "opt", "proc", "root",
    "run", "sbin", "srv", "sys", "tmp", "usr", "var"].map fun name => [name]

/-- What is written here is gone. -/
def sink : List String := ["dev", "null"]

/-- A shelf with some texts in the working directory. -/
def ofFiles (files : List (String × String)) : Shelf :=
  ⟨(sink, "") :: files.map fun (name, text) => (working ++ [name], text)⟩

def maxName : Nat := 255

def maxPath : Nat := 4095

/-- One part of the way through directories. -/
def step (shelf : Shelf) (place : List String) (part : String) : Except Refusal (List String) :=
  if part ∈ ["", "."] then .ok place
  else if part = ".." then .ok place.dropLast
  else if maxName < part.utf8ByteSize then .error .nameTooLong
  else if place ++ [part] ∈ directories then .ok (place ++ [part])
  else if (shelf.files.lookup (place ++ [part])).isSome then .error .notDirectory
  else .error .absent

/-- The directory that the first parts of a path lead to. -/
def enter (shelf : Shelf) (path : String) (parts : List String) :
    Except Refusal (List String) :=
  if path.contains '\x00' then .error .zeroByte
  else if path = "" then .error .absent
  else if maxPath < path.utf8ByteSize then .error .nameTooLong
  else parts.foldlM shelf.step (if path.startsWith "/" then [] else working)

/-- The place of a text with a name of its own in a directory. -/
def entry (place : List String) (name : String) : Except Refusal (List String) :=
  if name ∈ ["", ".", ".."] then .error .isDirectory
  else if maxName < name.utf8ByteSize then .error .nameTooLong
  else if place ++ [name] ∈ directories then .error .isDirectory
  else .ok (place ++ [name])

def read (shelf : Shelf) (path : String) : Except Refusal String := do
  let parts := path.splitOn "/"
  let place ← entry (← shelf.enter path parts.dropLast) (parts.getLastD "")
  match shelf.files.lookup place with
  | some text => return text
  | none => throw .absent

/-- A slash at the end of a path asks for a directory. -/
def write (shelf : Shelf) (path text : String) : Except Refusal Shelf := do
  let parts := (path.splitOn "/").reverse.dropWhile (· = "")
  let place ← shelf.enter path parts.tail.reverse
  if path.endsWith "/" then throw .isDirectory
  let place ← entry place (parts.headD "")
  return if place = sink then shelf else ⟨(place, text) :: shelf.files⟩

def contains (shelf : Shelf) (path : String) : Bool :=
  match shelf.read path with
  | .ok _ | .error .isDirectory => true
  | .error _ => false

end Shelf

abbrev OnShelf := StateM Shelf

instance : Storage OnShelf where
  contains path := return (← get).contains path
  read path := return ((← get).read path).mapError Refusal.text
  write path text := do
    match (← get).write path text with
    | .ok shelf => set shelf; return .ok ()
    | .error refusal => return .error refusal.text

end DnsFanout.Rehearsal
