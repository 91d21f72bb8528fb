/-
The history of runs.

Three tables: the runs, and for each run the blocks and the functions that it
found.  Rows hold addresses as hexadecimal text and counts as signed 64-bit
words, so a row has to be decoded before it can be used, and a history that was
tampered with may hold rows that cannot be.

* `insertRun`, `insertInventory` append rows; an inventory belongs to a run that
  is there, and is stored whole or not at all;
* `runs`, `latest?`, `blocks`, `functions` read the rows back in the order in
  which they were stored.

Row numbers of runs start at one and are never used twice.
-/
import FlowRecovery.Text.Quoted
import FlowRecovery.Text.Trim
import FlowRecovery.Recovery

namespace FlowRecovery

/-- How a run ended. -/
inductive RunStatus where
  | succeeded
  | failed
  deriving DecidableEq, Repr, Inhabited

namespace RunStatus

/-- The name of the status. -/
def name : RunStatus → String
  | .succeeded => "succeeded"
  | .failed => "failed"

/-- The status with the name; every other text stands for a failure. -/
def ofName (s : String) : RunStatus := if s = "succeeded" then .succeeded else .failed

@[simp] theorem ofName_name (s : RunStatus) : ofName s.name = s := by cases s <;> rfl

end RunStatus

/-- One run of the history. -/
structure RunRecord where
  /-- The file name of the program. -/
  binary : String
  binaryHash : Option String
  arch : String
  entryPoints : List Addr
  status : RunStatus
  /-- What went wrong, in a run that failed. -/
  error : Option String
  blocks : Word
  functions : Word
  relocations : Word
  startedAt : String
  finishedAt : String
  deriving DecidableEq, Repr, Inhabited

/-- Why the history could not be used. -/
inductive HistoryError where
  /-- The tables are not there, or refuse the rows. -/
  | store
  | unsupportedVersion (found : Int)
  | malformedAddress (text : String)
  deriving DecidableEq, Repr

/-- The row of a run. -/
structure RunRow where
  id : Nat
  binary : String
  binaryHash : Option String
  arch : String
  entryPoints : String
  status : String
  error : Option String
  blocks : Int64
  functions : Int64
  relocations : Int64
  startedAt : String
  finishedAt : String
  deriving DecidableEq, Repr

/-- The row of a block. -/
structure BlockRow where
  run : Nat
  address : String
  size : Int64
  kind : String
  deriving DecidableEq, Repr

/-- The row of a function. -/
structure FunctionRow where
  run : Nat
  name : String
  entry : String
  low : String
  high : String
  blocks : Int64
  deriving DecidableEq, Repr

/-- The history of runs; the tables of an inventory may be missing. -/
structure History where
  version : Int := 0
  runRows : List RunRow := []
  /-- The greatest row number that was ever given to a run. -/
  lastId : Nat := 0
  blockRows : Option (List BlockRow) := none
  functionRows : Option (List FunctionRow) := none
  deriving DecidableEq, Repr, Inhabited

namespace History

/-- The version of the tables that is written. -/
def currentVersion : Int := 2

end History

/-- The text of the error; what the tables refuse is not described further. -/
def HistoryError.message : HistoryError → String
  | .store => "SQLite error: "
  | .unsupportedVersion found =>
    let sign := if found < 0 then "-" else ""
    "Unsupported schema version " ++ sign ++ Text.decimal found.natAbs
      ++ "; supported range is 0..=2"
  | .malformedAddress text => "Malformed address " ++ Text.quoted text ++ " in run database"

namespace History

/-- Read an address: every leading `0x` is dropped. -/
def readAddress (text : String) : Except HistoryError Addr :=
  match Text.readWord? 16 (Text.dropLeading "0x".toList text.toList) with
  | some a => .ok a
  | none => .error (.malformedAddress text)

/-- Entry points as one text. -/
def joinEntries (l : List Addr) : String := ",".intercalate (l.map Text.addr)

/-- Read entry points. -/
def splitEntries (text : String) : Except HistoryError (List Addr) :=
  (((text.toList.splitOn ',').map String.ofList).filter (· ≠ "")).mapM readAddress

end History

/-- The row that stores a run. -/
def RunRecord.row (r : RunRecord) (id : Nat) : RunRow :=
  { id, binary := r.binary, binaryHash := r.binaryHash, arch := r.arch
    entryPoints := History.joinEntries r.entryPoints, status := r.status.name, error := r.error
    blocks := r.blocks.toInt64, functions := r.functions.toInt64
    relocations := r.relocations.toInt64, startedAt := r.startedAt, finishedAt := r.finishedAt }

/-- The run that a row stores. -/
def RunRow.record (r : RunRow) : Except HistoryError RunRecord := do
  return { binary := r.binary, binaryHash := r.binaryHash, arch := r.arch
           entryPoints := ← History.splitEntries r.entryPoints, status := .ofName r.status
           error := r.error, blocks := r.blocks.toUInt64, functions := r.functions.toUInt64
           relocations := r.relocations.toUInt64, startedAt := r.startedAt
           finishedAt := r.finishedAt }

/-- The row that stores a block of a run. -/
def BlockRecord.row (r : BlockRecord) (run : Nat) : BlockRow :=
  { run, address := Text.addr r.address, size := r.size.toInt64, kind := r.kind }

/-- The block that a row stores. -/
def BlockRow.record (r : BlockRow) : Except HistoryError BlockRecord := do
  return { address := ← History.readAddress r.address, size := r.size.toUInt64, kind := r.kind }

/-- The row that stores a function of a run. -/
def FunctionRecord.row (r : FunctionRecord) (run : Nat) : FunctionRow :=
  { run, name := r.name, entry := Text.addr r.entry, low := Text.addr r.low
    high := Text.addr r.high, blocks := r.blocks.toInt64 }

/-- The function that a row stores. -/
def FunctionRow.record (r : FunctionRow) : Except HistoryError FunctionRecord := do
  return { name := r.name, entry := ← History.readAddress r.entry
           low := ← History.readAddress r.low, high := ← History.readAddress r.high
           blocks := r.blocks.toUInt64 }

namespace History

/-- Bring the tables up to date: below the current version the missing ones are made. -/
def upgrade (h : History) : Except HistoryError History :=
  if currentVersion < h.version then .error (.unsupportedVersion h.version)
  else if h.version < currentVersion then
    .ok { h with version := currentVersion, blockRows := some (h.blockRows.getD [])
                 functionRows := some (h.functionRows.getD []) }
  else .ok h

/-- A history without runs. -/
def fresh : History := { version := currentVersion, blockRows := some [], functionRows := some [] }

/-- Whether there is a run with the row number. -/
def hasRun (h : History) (id : Nat) : Bool := h.runRows.any (·.id == id)

/-- Store a run; the result is its row number. -/
def insertRun (h : History) (r : RunRecord) : History × Nat :=
  let id := h.lastId + 1
  ({ h with runRows := h.runRows ++ [r.row id], lastId := id }, id)

/-- Store what a run found. -/
def insertInventory (h : History) (run : Nat) (blocks : List BlockRecord)
    (functions : List FunctionRecord) : Except HistoryError History :=
  match h.blockRows, h.functionRows with
  | some blockRows, some functionRows =>
    if h.hasRun run || (blocks.isEmpty && functions.isEmpty) then
      .ok { h with blockRows := some (blockRows ++ blocks.map (·.row run))
                   functionRows := some (functionRows ++ functions.map (·.row run)) }
    else .error .store
  | _, _ => .error .store

/-- The runs, oldest first, of one program or of all. -/
def runs (h : History) (binary : Option String) : Except HistoryError (List RunRecord) :=
  (h.runRows.filter fun r => binary.all (· == r.binary)).mapM RunRow.record

/-- The row number of the newest run of a program. -/
def latest? (h : History) (binary : String) : Option Nat :=
  (h.runRows.filter (·.binary == binary)).getLast?.map (·.id)

/-- The blocks that a run found. -/
def blocks (h : History) (run : Nat) : Except HistoryError (List BlockRecord) :=
  match h.blockRows with
  | none => .error .store
  | some rows => (rows.filter (·.run == run)).mapM BlockRow.record

/-- The functions that a run found. -/
def functions (h : History) (run : Nat) : Except HistoryError (List FunctionRecord) :=
  match h.functionRows with
  | none => .error .store
  | some rows => (rows.filter (·.run == run)).mapM FunctionRow.record

end History

end FlowRecovery
