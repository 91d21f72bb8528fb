/-
What the program asks of the machine that it runs on: files, clocks and a
disassembler.

Everything that touches files is written against this interface, so that it runs
on a real machine as well as on a file tree that is a value
(`Host.FileTree`).  Paths are taken from the working directory.
-/
import FlowRecovery.X86.Insn

namespace FlowRecovery

/-- Why an operation on files was refused. -/
inductive FileError where
  | notFound
  | exists_
  | notDirectory
  | isDirectory
  | nameTooLong
  | linkLoop
  | zeroCharacter
  | other (reason : String)
  deriving DecidableEq, Repr

/-- The text of the error. -/
def FileError.message : FileError → String
  | .notFound => "No such file or directory (os error 2)"
  | .exists_ => "File exists (os error 17)"
  | .notDirectory => "Not a directory (os error 20)"
  | .isDirectory => "Is a directory (os error 21)"
  | .nameTooLong => "File name too long (os error 36)"
  | .linkLoop => "Too many levels of symbolic links (os error 40)"
  | .zeroCharacter => "file name contained an unexpected NUL byte"
  | .other reason => reason

/-- A machine that programs of type `m` run on. -/
class Host (m : Type → Type) where
  /-- The absolute path of the working directory. -/
  currentDir : m String
  /-- The absolute path of a file that is there, without links. -/
  canonical? : String → m (Option String)
  /-- Whether the path leads to a file. -/
  isFile : String → m Bool
  /-- Whether there is anything under the path, be it a link that leads nowhere. -/
  isPresent : String → m Bool
  read : String → m (Except FileError Bytes)
  /-- Write a file, in the place of the one that is there. -/
  write : String → Bytes → m (Except FileError Unit)
  /-- The names of what a directory holds. -/
  list : String → m (Except FileError (List String))
  makeDir : String → m (Except FileError Unit)
  /-- Make a directory together with those that lead to it. -/
  makeDirs : String → m (Except FileError Unit)
  /-- Remove a file or a link. -/
  remove : String → m (Except FileError Unit)
  /-- Make a link that leads to the first path under the second. -/
  link : String → String → m (Except FileError Unit)
  /-- The time of day, in the form of RFC 3339. -/
  now : m String
  /-- A clock that only goes forward, in nanoseconds. -/
  clock : m Nat
  /-- What the disassembler finds in the program with the path. -/
  decoder : String → m X86.Decoder

end FlowRecovery
