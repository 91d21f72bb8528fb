/-
The command that recovers a program.
-/
import FlowRecovery.Binary64.Shortest
import FlowRecovery.Command.Args
import FlowRecovery.Command.Value
import FlowRecovery.Config.Load
import FlowRecovery.Digest
import FlowRecovery.History.File
import FlowRecovery.Output
import FlowRecovery.Recovery.Codec
import FlowRecovery.Recovery.File

namespace FlowRecovery.Command

variable {m : Type → Type} [Monad m] [Host m]

/-- The configuration in a file. -/
def loadConfig (path : String) : m (Except ConfigError Config) := do
  match ← Host.read path with
  | .ok contents => return Config.load path contents
  | .error e => return .error (.io path e.message)

/-- The configuration in a file, or the defaults. -/
def baseConfig : Option String → Action m Config
  | none => return {}
  | some path => do
    Action.orFail ("Failed to load translator config at " ++ path) ConfigError.causes
      (← (loadConfig path : m _))

/-- The configuration in the file, with what the command line says in its place. -/
def RecoveryArgs.effectiveConfig (a : RecoveryArgs) : Action m Config := do
  let mut config ← baseConfig a.config
  if let some text := a.arch then
    let arch ← Action.orFail ("Invalid --arch " ++ text) ImageError.causes (Arch.ofText text)
    config := { config with arch := some arch }
  if let some limit := a.maxBlockInstructions then
    if limit = 0 ∨ X86.maxLimit < limit.toNat then
      Action.fail ["--max-block-instructions must be between 1 and "
        ++ Text.decimal X86.maxLimit]
    config := { config with maxBlockInstructions := limit }
  return config

/-- What the command line asks to recover. -/
def RecoveryArgs.request (a : RecoveryArgs) (name : String) : Action m Request := do
  let entryPoints ← a.entryPoints.mapM fun text =>
    match address? text with
    | some entry => pure entry
    | none => Action.fail [invalidAddress text]
  return { name, entryPoints, useImageEntry := !a.noDefaultEntry }

/-- The digest of a file. -/
def fileDigest (path : String) : Action m String := do
  match ← (Host.read path : m _) with
  | .ok contents => return Digest.sha256 contents
  | .error .isDirectory =>
    Action.fail ["Failed to read binary for hashing: " ++ path, FileError.isDirectory.message]
  | .error e => Action.fail ["Failed to open binary for hashing: " ++ path, e.message]

/-- The record of a run. -/
def runRecord (input name : String) (config : Config) (request : Request)
    (t : Option Recovery) (startedAt : String) (error : Option String) :
    Action m RunRecord := do
  let count (f : RunStats → Nat) : Word := UInt64.ofNat ((t.map fun t => f t.stats).getD 0)
  let arch := (t.map (·.arch)).or config.arch
  let binaryHash ← fileDigest input
  return { binary := name, binaryHash := some binaryHash, arch := (arch.map Arch.name).getD "auto"
           entryPoints := (t.map (·.entryPoints)).getD request.entryPoints
           status := if t.isSome then .succeeded else .failed, error
           blocks := count (·.blocks), functions := count (·.functions)
           relocations := count (·.relocations), startedAt
           finishedAt := ← (Host.now : m _) }

/-- What is logged when a run fails. -/
def failureLine (name : String) (e : RecoveryError) : String :=
  let place := match e.address? with
    | some a => " failed at " ++ Text.addr a
    | none => " failed"
  "[ERROR binlift::commands::translate] translation of " ++ name ++ place ++ ": " ++ e.message

/-- The counters as JSON, after the time that the run took. -/
def statsJson (elapsed : Binary64) (s : RunStats) : Json :=
  .obj (("elapsed_secs", .fraction elapsed.shortest) :: s.members)

/-- What is said of a run. -/
def recoveryText (name root : String) (t : Recovery) (elapsed : Binary64) : String :=
  let s := t.stats
  let overlapping :=
    if s.overlappingEntries.isEmpty then []
    else ["  Overlapping entries: " ++ Text.decimal s.overlappingEntries.length]
  let lines := ["Translated " ++ name ++ ":", "  Output dir: " ++ root,
    "  Blocks: " ++ Text.decimal s.blocks, "  Functions: " ++ Text.decimal s.functions,
    "  Relocations: " ++ Text.decimal s.relocations,
    "  Memory accesses: " ++ Text.decimal s.memoryAccesses ++ " ("
      ++ Text.decimal s.hardcodedAccesses ++ " hard-coded)"]
    ++ overlapping ++ ["  Elapsed: " ++ elapsed.fixed 3 ++ "s"]
  String.join (lines.map (· ++ "\n"))

/-- What is said of a run, as JSON. -/
def recoveryJson (name root : String) (t : Recovery) (elapsed : Binary64) : Json :=
  .obj [("binary", .str name), ("output_dir", .str root),
    ("entry_points", .list (fun e => .str (Text.addr e)) t.entryPoints),
    ("stats", statsJson elapsed t.stats)]

/-- Recover a program, write the results and record the run.  Nothing is written
to the directory of the results unless the run succeeds. -/
def recover (a : RecoveryArgs) (traced : Bool) : Action m String := do
  let input ← (absolutePath a.input : m _)
  unless ← (Host.isFile input : m _) do
    Action.fail ["Input binary does not exist: " ++ input]
  let config ← a.effectiveConfig
  let name := binaryName input
  let request ← a.request name
  let startedAt ← (Host.now : m _)
  let started ← (Host.clock : m _)
  let result ← (recoverFile config input request traced : m _)
  let finished ← (Host.clock : m _)
  let elapsed := Binary64.ofRatio false (finished - started) 1000000000
  match result with
  | .error .overflow => throw .overflow
  | .error (.refused e) =>
    Action.logged (failureLine name e) do
      if let some db := a.db then
        let record ← runRecord input name config request none startedAt (some e.message)
        History.record db record none
      Action.fail (("Failed to translate " ++ input) :: e.causes)
  | .ok t =>
    let dir ← (absolutePath a.outputDir : m _)
    let layout ← if a.experiment then OutputLayout.allocate dir else OutputLayout.prepare dir
    layout.writeArtifacts t elapsed
    if let some db := a.db then
      History.record db (← runRecord input name config request (some t) startedAt none) (some t)
    if a.json then return (recoveryJson name layout.root t elapsed).pretty ++ "\n"
    else return recoveryText name layout.root t elapsed

end FlowRecovery.Command
