import DnsFanout.CommandLine
import DnsFanout.Net.Unreachable

/-! The program. Queries come as one stream on standard input and replies leave on
standard output; no other network is at hand, so no resolver is reached. -/

namespace DnsFanout

/-- What a code of the operating system means; some calls give it negated. -/
def reasonOfCode (code : UInt32) : String :=
  let code := if code < 0x80000000 then code else 0 - code
  let meaning := match code with
    | 2 => "No such file or directory"
    | 13 => "Permission denied"
    | 20 => "Not a directory"
    | 21 => "Is a directory"
    | 36 => "File name too long"
    | _ => "Input/output error"
  meaning ++ " (os error " ++ toString code ++ ")"

/-- Why a file could not be used. -/
def reasonOf : IO.Error → String
  | .noFileOrDirectory _ code _ | .permissionDenied _ code _ | .inappropriateType _ code _ =>
    reasonOfCode code
  | .invalidArgument _ 22 _ => "file name contained an unexpected NUL byte"
  | .invalidArgument _ code _ => reasonOfCode code
  | .userError _ => "stream did not contain valid UTF-8"
  | cause => toString cause

instance : Storage IO where
  contains path := do
    match ← (IO.FS.readFile path).toBaseIO with
    | .error (.noFileOrDirectory ..) => return false
    | _ => return true
  read path := return (← (IO.FS.readFile path).toBaseIO).mapError reasonOf
  write path text := return (← (IO.FS.writeFile path text).toBaseIO).mapError reasonOf

/-- Draws that a seed settles. -/
def drawsFrom (seed i : Nat) : Nat := (stdNext (mkStdGen (seed + i))).1

/-- All that standard input holds, in the pieces that were read. -/
partial def readChunks (input : IO.FS.Stream) : IO (List Bytes) := do
  let chunk ← input.read 65536
  if chunk.isEmpty then return []
  return chunk.toList :: (← readChunks input)

def run (arguments : List String) : IO UInt32 := do
  let draws := drawsFrom (← IO.rand 0 1000000000)
  match ← CommandLine.start draws Net.Unreachable.mk (fun _ => return .ok ()) arguments with
  | .error exit =>
    (← IO.getStdout).putStr exit.output
    (← IO.getStderr).putStr exit.errors
    return exit.code.toUInt32
  | .ok ready =>
    let chunks ← readChunks (← IO.getStdin)
    let now ← IO.monoMsNow
    let served := Responder.serve none ready.responder now (chunks.map fun chunk => (now, chunk)) []
    let output ← IO.getStdout
    output.write ⟨served.sent.toArray⟩
    output.flush
    return 0

end DnsFanout

def main (arguments : List String) : IO UInt32 := DnsFanout.run arguments
