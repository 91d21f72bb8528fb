/-
Where the results of a run go.

Results are written to a directory, or to a fresh one among numbered directories,
the newest of which a link always leads to.
-/
import FlowRecovery.Failure
import FlowRecovery.Module.Codec
import FlowRecovery.Path
import FlowRecovery.Report

namespace FlowRecovery

/-- The paths of the results in a directory. -/
structure OutputLayout where
  root : String
  deriving DecidableEq, Repr

namespace OutputLayout

/-- The module as JSON. -/
def modulePath (l : OutputLayout) : String := Path.join l.root "module.json"

/-- Where the blocks start. -/
def blocksPath (l : OutputLayout) : String := Path.join l.root "bblist.txt"

/-- Where the functions start. -/
def functionsPath (l : OutputLayout) : String := Path.join l.root "functions.txt"

/-- The counters. -/
def statsPath (l : OutputLayout) : String := Path.join l.root "stats.txt"

/-- All of them. -/
def artifacts (l : OutputLayout) : List String :=
  [l.modulePath, l.blocksPath, l.functionsPath, l.statsPath]

/-- What the names of numbered directories start with. -/
def experimentStem : String := "binlift-out-"

/-- The link to the newest numbered directory. -/
def lastLink : String := "binlift-last"

/-- The name of a numbered directory. -/
def experimentName (index : UInt32) : String := experimentStem ++ Text.decimal index.toNat

/-- The number in the name of a numbered directory. -/
def experimentIndex? (name : String) : Option UInt32 := do
  let cs := name.toList
  guard (experimentStem.toList.isPrefixOf cs)
  let n ← Text.readUnsigned? 10 UInt32.size (cs.drop experimentStem.length)
  return UInt32.ofNat n

/-- A numbered directory. -/
def experiment (parent : String) (index : UInt32) : OutputLayout :=
  ⟨Path.join parent (experimentName index)⟩

/-- The number behind all that are taken. -/
def nextIndex {ε : Type} (names : List String) : Checked ε UInt32 :=
  (names.filterMap experimentIndex?).foldlM
    (fun next index => return max next (← checkedAdd32 index 1)) 0

variable {m : Type → Type} [Monad m] [Host m]

/-- Make the directory of the results. -/
def prepare (dir : String) : Action m OutputLayout := do
  Action.file ("Failed to create output directory " ++ dir) (Host.makeDirs dir : m _)
  return ⟨dir⟩

/-- Let the link lead to a numbered directory. -/
def refreshLink (parent : String) (index : UInt32) : Action m Unit := do
  let path := Path.join parent lastLink
  if ← (Host.isPresent path : m _) then
    Action.file ("Failed to remove stale link " ++ path) (Host.remove path : m _)
  Action.file ("Failed to create link " ++ path) (Host.link (experimentName index) path : m _)

/-- Make the next numbered directory. -/
def allocate (parent : String) : Action m OutputLayout := do
  Action.file ("Failed to create directory " ++ parent) (Host.makeDirs parent : m _)
  let names ← Action.file ("Failed to list directory " ++ parent) (Host.list parent : m _)
  let index ← Action.lift (nextIndex names)
  let layout := experiment parent index
  Action.file ("Failed to create experiment directory " ++ layout.root)
    (Host.makeDir layout.root : m _)
  refreshLink parent index
  return layout

/-- Write the results of a run. -/
def writeArtifacts (l : OutputLayout) (t : Recovery) (elapsed : Binary64) : Action m Unit := do
  let timestamp ← (Host.now : m _)
  let files := [(l.modulePath, t.module_.pretty),
    (l.blocksPath, Report.addresses t.blockAddresses),
    (l.functionsPath, Report.addresses t.functionAddresses),
    (l.statsPath, Report.stats timestamp elapsed t.stats)]
  for (path, text) in files do
    Action.file ("Failed to write " ++ path) (Host.write path text.toUTF8.data : m _)

end OutputLayout

end FlowRecovery
