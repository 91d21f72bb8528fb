/-
The commands that show the history of runs.
-/
import FlowRecovery.History.File
import FlowRecovery.Report

namespace FlowRecovery.Command

variable {m : Type → Type} [Monad m] [Host m]

/-- A run in one line, and a second one if it failed. -/
def runLines (r : RunRecord) : List String :=
  let line := "- " ++ r.binary ++ " [" ++ r.status.name ++ "] entries: "
    ++ Report.addressList r.entryPoints ++ ", blocks: " ++ Text.decimal r.blocks.toNat
    ++ ", functions: " ++ Text.decimal r.functions.toNat ++ ", relocations: "
    ++ Text.decimal r.relocations.toNat ++ " (" ++ r.startedAt ++ " -> " ++ r.finishedAt ++ ")"
  line :: (r.error.map ("    error: " ++ ·)).toList

/-- List the runs of one program or of all. -/
def listRuns (db : String) (binary : Option String) (json : Bool) : Action m String := do
  let h ← History.openExisting db
  let runs ← Action.orFail "Failed to list translations" HistoryError.causes (h.runs binary)
  if json then return (Json.list RunRecord.toJson runs).pretty ++ "\n"
  else
    let lines := if runs.isEmpty then ["(none)"] else runs.flatMap runLines
    return String.join (("Translations:" :: lines).map (· ++ "\n"))

/-- A function in one line. -/
def functionLine (f : FunctionRecord) : String :=
  "- " ++ f.name ++ " at " ++ Text.addr f.entry ++ " (" ++ Text.addr f.low ++ ".."
    ++ Text.addr f.high ++ ", " ++ Text.decimal f.blocks.toNat ++ " blocks)"

/-- A block in one line. -/
def blockLine (b : BlockRecord) : String :=
  "- " ++ Text.addr b.address ++ " +" ++ Text.decimal b.size.toNat ++ " " ++ b.kind

/-- Show what the newest run of a program found. -/
def showRun (db binary : String) (json : Bool) : Action m String := do
  let h ← History.openExisting db
  match h.latest? binary with
  | none => Action.fail ["No translations recorded for " ++ binary]
  | some run =>
    let blocks ← Action.orFail "Failed to load blocks" HistoryError.causes (h.blocks run)
    let functions ← Action.orFail "Failed to load functions" HistoryError.causes (h.functions run)
    if json then
      let inventory := Json.obj [("binary", .str binary), ("run_id", .nat run),
        ("blocks", .list BlockRecord.toJson blocks),
        ("functions", .list FunctionRecord.toJson functions)]
      return inventory.pretty ++ "\n"
    else
      let lines := ["Run " ++ Text.decimal run ++ " of " ++ binary ++ ":", "Functions:"]
        ++ (if functions.isEmpty then ["(none)"] else functions.map functionLine)
        ++ ["Blocks: " ++ Text.decimal blocks.length] ++ blocks.map blockLine
      return String.join (lines.map (· ++ "\n"))

end FlowRecovery.Command
