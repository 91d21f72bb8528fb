/-
The whole recovery of a program: explore, infer the functions, put them
together, resolve.
-/
import FlowRecovery.Assembly
import FlowRecovery.Config
import FlowRecovery.Exploration
import FlowRecovery.Resolution.Passes

namespace FlowRecovery

/-- What to recover, and from where. -/
structure Request where
  /-- The name of the resulting module. -/
  name : String
  /-- If there are any, they replace the entry of the image. -/
  entryPoints : List Addr := []
  /-- Whether the entry of the image is taken when no other is given. -/
  useImageEntry : Bool := true
  deriving DecidableEq, Repr, Inhabited

/-- The request as JSON. -/
def Request.toJson (r : Request) : Json :=
  .obj [("name", .str r.name), ("entry_points", .list .word r.entryPoints),
    ("use_image_entry", .bool r.useImageEntry)]

/-- Why a run failed. -/
inductive RecoveryError where
  | noEntryPoints
  | image (error : ImageError)
  | explore (error : ExploreError)
  | assemble (error : AssembleError)
  | resolve (error : ResolveError)
  deriving DecidableEq, Repr

namespace RecoveryError

/-- The text of the error. -/
def message : RecoveryError → String
  | .noEntryPoints => "no entry points: the image has none and none were given"
  | .image error => error.message
  | .explore error => "exploration failed: " ++ error.message
  | .assemble error => "function assembly failed: " ++ error.message
  | .resolve error => "resolution failed: " ++ error.message

/-- The address that the failure is put down to. -/
def address? : RecoveryError → Option Addr
  | .explore (.block error) => error.address?
  | .assemble (.unknownEntry entry) => some entry
  | .assemble (.missingTarget _ block) => some block
  | .resolve error => error.site?
  | _ => none

end RecoveryError

/-- What a run counts. -/
structure RunStats where
  entryPoints : Nat := 0
  explored : Nat := 0
  lifted : Nat := 0
  dropped : Nat := 0
  blocks : Nat := 0
  functions : Nat := 0
  relocations : Nat := 0
  skippedRelocations : Nat := 0
  memoryAccesses : Nat := 0
  hardcodedAccesses : Nat := 0
  splits : Nat := 0
  duplicates : Nat := 0
  jumpTables : Nat := 0
  directCalls : Nat := 0
  importCalls : Nat := 0
  indirectCalls : Nat := 0
  wrappers : Nat := 0
  /-- The entries that lie strictly inside another function's range. -/
  overlappingEntries : List Addr := []
  deriving DecidableEq, Repr, Inhabited

/-- The counters in the order in which they are reported. -/
def RunStats.counters (s : RunStats) : List (String × Nat) :=
  [("entry_points", s.entryPoints), ("explored", s.explored), ("lifted", s.lifted),
    ("dropped", s.dropped), ("blocks", s.blocks), ("functions", s.functions),
    ("relocations", s.relocations), ("skipped_relocations", s.skippedRelocations),
    ("memory_accesses", s.memoryAccesses), ("hardcoded_accesses", s.hardcodedAccesses),
    ("splits", s.splits), ("duplicates", s.duplicates), ("jump_tables", s.jumpTables),
    ("direct_calls", s.directCalls), ("import_calls", s.importCalls),
    ("indirect_calls", s.indirectCalls), ("wrappers", s.wrappers)]

/-- The counters with the given values. -/
def RunStats.ofCounters (f : String → Nat) : RunStats :=
  { entryPoints := f "entry_points", explored := f "explored", lifted := f "lifted"
    dropped := f "dropped", blocks := f "blocks", functions := f "functions"
    relocations := f "relocations", skippedRelocations := f "skipped_relocations"
    memoryAccesses := f "memory_accesses", hardcodedAccesses := f "hardcoded_accesses"
    splits := f "splits", duplicates := f "duplicates", jumpTables := f "jump_tables"
    directCalls := f "direct_calls", importCalls := f "import_calls"
    indirectCalls := f "indirect_calls", wrappers := f "wrappers" }

/-- One block in the inventory of a run. -/
structure BlockRecord where
  address : Addr
  size : Word
  kind : String
  deriving DecidableEq, Repr, Inhabited

/-- One function in the inventory of a run. -/
structure FunctionRecord where
  name : String
  entry : Addr
  low : Addr
  high : Addr
  blocks : Word
  deriving DecidableEq, Repr, Inhabited

/-- The result of a recovery. -/
structure Recovery where
  arch : Arch
  entryPoints : List Addr
  module_ : Module
  store : Store
  layouts : List Layout
  stats : RunStats
  deriving DecidableEq, Repr

namespace Recovery

/-- Where the blocks start. -/
def blockAddresses (t : Recovery) : List Addr := t.store.addresses

/-- Where the functions start. -/
def functionAddresses (t : Recovery) : List Addr := t.layouts.map (·.entry)

/-- The blocks, as they are recorded. -/
def blockRecords (t : Recovery) : List BlockRecord :=
  t.store.toList.map fun b => { address := b.address, size := b.size, kind := b.kind.name }

/-- The functions, as they are recorded. -/
def functionRecords (t : Recovery) : List FunctionRecord :=
  t.layouts.map fun l =>
    { name := l.name, entry := l.entry, low := l.low, high := l.high
      blocks := UInt64.ofNat l.blocks.length }

end Recovery

/-- The course of a run. -/
structure RecoveryCourse where
  /-- Whether the lifter was taken; it has been given back since. -/
  opened : Bool := false
  /-- The addresses that were handed to the lifter, in order. -/
  turns : List Addr := []
  result : Checked RecoveryError Recovery

namespace Config

/-- Which numbers in the code are taken for code addresses. -/
def exploreOptions (c : Config) : ExploreOptions :=
  { extractAddresses := c.extractAddresses, minStringLength := c.minStringLength.toNat
    detectJumpTables := c.jumpTableDetection }

/-- How functions are named in a program with the given entry. -/
def naming (c : Config) (programEntry : Option Addr) : Naming :=
  { entryName := c.entryName, functionPrefix := c.functionPrefix, programEntry }

end Config

/-- Where to explore from: what was asked for, else the entry of the image. -/
def Request.entries (r : Request) (image : Image) : AddrSet :=
  if !r.entryPoints.isEmpty then .ofList r.entryPoints
  else if r.useImageEntry then .ofList image.entry.toList
  else ∅

namespace Recovery

/-- The counters of a finished run. -/
def count (entries : AddrSet) (e : Exploration) (layouts : List Layout) (r : ResolveStats) :
    RunStats :=
  { entryPoints := entries.size, explored := e.explored.size, lifted := e.lifted
    dropped := e.dropped.size, blocks := e.store.size, functions := layouts.length
    relocations := r.relocations, skippedRelocations := r.skippedRelocations
    memoryAccesses := r.memoryAccesses, hardcodedAccesses := r.hardcodedAccesses
    splits := e.store.splits, duplicates := e.store.duplicates
    jumpTables := e.jumpTables.size, directCalls := r.directCalls, importCalls := r.importCalls
    indirectCalls := r.indirectCalls, wrappers := r.wrappers
    overlappingEntries := Layout.overlapping layouts }

/-- Make a module of what was explored. -/
def build (config : Config) (image : Image) (request : Request) (entries : AddrSet)
    (e : Exploration) : Checked RecoveryError Recovery := do
  let functions ← e.store.entries
  let naming := config.naming image.entry
  let assembled ← (e.store.assembleAll naming (.ofList functions)).within .assemble
  let layouts := assembled.map (·.2)
  let raw : Module := { name := request.name, functions := assembled.map (·.1) }
  let (module_, resolved) := raw.resolve image e.store
  let stats ← resolved.within .resolve
  return { arch := image.arch, entryPoints := entries.toList, module_, store := e.store, layouts
           stats := count entries e layouts stats }

end Recovery

/-- Recover a program. -/
def recover (config : Config) (lifter : Lifter) (image : Image) (request : Request) :
    RecoveryCourse :=
  let entries := request.entries image
  if entries.isEmpty then { result := Checked.refuse .noEntryPoints }
  else
    let course := explore lifter image config.exploreOptions entries.toList
    { opened := course.opened, turns := course.turns
      result := do
        Recovery.build config image request entries (← course.result.within .explore) }

end FlowRecovery
