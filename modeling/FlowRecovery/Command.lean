/-
Carrying out a command line.
-/
import FlowRecovery.Command.Inspect
import FlowRecovery.Command.Runs
import FlowRecovery.Command.Recover

namespace FlowRecovery.Command

/-- What a command leaves behind for whoever gave it. -/
structure Outcome where
  code : Nat
  stdout : String := ""
  stderr : List String := []
  deriving DecidableEq, Repr

variable {m : Type → Type} [Monad m] [Host m]

/-- Carry out a command; the result is what it prints. -/
def Invocation.run (traced : Bool) : Invocation → Action m String
  | .recover args => Command.recover args traced
  | .inspect input json => Command.inspect input json traced
  | .runs db binary json => listRuns db binary json
  | .showRun db binary json => Command.showRun db binary json

/-- What there is to know about the commands. -/
def helpText : String :=
  String.join (["Lift native binaries to IR with reconstructed CFGs and functions", "",
    "Usage: binlift [OPTIONS] <COMMAND>", "", "Commands:",
    "  translate  Translate a binary into an IR module",
    "  inspect    Show the sections, imports and relocations the loader finds in a binary",
    "  runs       List translations recorded in a run history database",
    "  show-run   Show the block and function inventory of the newest run of a binary",
    "  help       Print this message or the help of the given subcommand(s)",
    "", "Options:", "  -v, --verbose  Log every lifted address and pass decision",
    "  -h, --help     Print help", "  -V, --version  Print version"].map (· ++ "\n"))

/-- Carry out a command line. -/
def run (args : List String) : m Outcome := do
  match readLine {} args with
  | .error .help => return { code := 0, stdout := helpText }
  | .error .version => return { code := 0, stdout := "binlift 0.1.0\n" }
  | .error (.usage reason) => return { code := 2, stderr := ["error: " ++ reason] }
  | .ok line =>
    match ← (line.invocation.run line.verbose : Action m String).run with
    | .ok stdout => return { code := 0, stdout }
    | .error .overflow => return { code := 101 }
    | .error (.refused f) => return { code := 1, stderr := f.log ++ f.report }

end FlowRecovery.Command
