/-
The program: the commands, carried out on the machine that it runs on.

What a disassembler found in a program is read from the file beside it, whose
name ends in `.decode.json`.  A link is a file that holds the path it leads to.
-/
import FlowRecovery.Command
import FlowRecovery.Host.Clock
import FlowRecovery.X86.Table
import Std.Time.DateTime.Timestamp

namespace FlowRecovery

/-- Why the machine refused an operation on files. -/
def FileError.ofError : IO.Error → FileError
  | .noFileOrDirectory .. => .notFound
  | .noSuchThing .. => .notFound
  | .alreadyExists .. => .exists_
  | .inappropriateType _ 20 _ => .notDirectory
  | .inappropriateType .. => .isDirectory
  | e => .other e.toString

/-- An operation on files, with the reason why it was refused. -/
def attempt {α : Type} (x : IO α) : IO (Except FileError α) := do
  match ← x.toBaseIO with
  | .ok a => return .ok a
  | .error e => return .error (.ofError e)

/-- Whether an operation on files is possible. -/
def possible {α : Type} (x : IO α) : IO Bool := return (← attempt x).isOk

/-- The findings of the disassembler beside a program. -/
def readTable (path : String) : IO X86.Decoder := do
  match ← attempt (IO.FS.readFile (path ++ ".decode.json")) with
  | .ok text => return ((Json.parse? text).bind X86.Decoder.ofJson?).getD fun _ => none
  | .error _ => return fun _ => none

instance : Host IO where
  currentDir := return (← IO.currentDir).toString
  canonical? path := do
    let found ← attempt do
      let p := (← IO.currentDir) / path
      let _ ← p.metadata
      IO.FS.realPath p
    return (found.toOption).map (·.toString)
  isFile path := do
    let found ← attempt do ((← IO.currentDir) / path).metadata
    return (found.toOption).any (·.type matches .file)
  isPresent path := possible do ((← IO.currentDir) / path).symlinkMetadata
  read path := attempt do return (← IO.FS.readBinFile path).data
  write path contents := attempt (IO.FS.writeBinFile path ⟨contents⟩)
  list path := attempt do
    return (← ((← IO.currentDir) / path).readDir).toList.map (·.fileName)
  makeDir path := attempt (IO.FS.createDir path)
  makeDirs path := attempt (IO.FS.createDirAll path)
  remove path := attempt (IO.FS.removeFile path)
  link target path := attempt (IO.FS.writeFile path target)
  now := return Clock.rfc3339 (← Std.Time.Timestamp.now).toNanosecondsSinceUnixEpoch.val.toNat
  clock := IO.monoNanosNow
  decoder := readTable

end FlowRecovery

/-- Carry out the command line. -/
def main (args : List String) : IO UInt32 := do
  let outcome ← FlowRecovery.Command.run args
  (← IO.getStdout).putStr outcome.stdout
  for line in outcome.stderr do
    (← IO.getStderr).putStrLn line
  return UInt32.ofNat outcome.code
