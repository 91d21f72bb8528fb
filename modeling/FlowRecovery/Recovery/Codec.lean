/-
The results of exploration, resolution and recovery as JSON.
-/
import FlowRecovery.Block.Codec
import FlowRecovery.History.Codec
import FlowRecovery.Recovery

namespace FlowRecovery

/-- Counters as JSON. -/
def countersJson (l : List (String × Nat)) : List (String × Json) :=
  l.map fun c => (c.1, .nat c.2)

/-- The members of an exploration as JSON. -/
def Exploration.members (e : Exploration) : List (String × Json) :=
  [("blocks", .list Block.toJson e.store.toList), ("explored", .addrs e.explored),
    ("dropped", .addrs e.dropped), ("jump_tables", .addrs e.jumpTables),
    ("stats", .obj (countersJson [("lifted", e.lifted), ("dropped", e.faults),
      ("candidates", e.candidates), ("rejected", e.rejected), ("splits", e.store.splits),
      ("duplicates", e.store.duplicates)]))]

/-- The counters of a resolution as JSON. -/
def ResolveStats.toJson (s : ResolveStats) : Json :=
  .obj (countersJson [("relocations", s.relocations),
    ("skipped_relocations", s.skippedRelocations), ("rewritten_constants", s.replacedConstants),
    ("memory_accesses", s.memoryAccesses), ("hardcoded_accesses", s.hardcodedAccesses),
    ("direct_calls", s.directCalls), ("import_calls", s.importCalls),
    ("indirect_calls", s.indirectCalls), ("wrappers", s.wrappers)])

/-- The members of the counters as JSON. -/
def RunStats.members (s : RunStats) : List (String × Json) :=
  countersJson s.counters ++ [("overlapping_entries", .list .word s.overlappingEntries)]

/-- The members of a recovery as JSON. -/
def Recovery.members (t : Recovery) : List (String × Json) :=
  [("arch", .str t.arch.name), ("entry_points", .list .word t.entryPoints),
    ("module", t.module_.toJson), ("layouts", .list Layout.toJson t.layouts),
    ("stats", .obj t.stats.members), ("block_addresses", .list .word t.blockAddresses),
    ("function_addresses", .list .word t.functionAddresses),
    ("block_records", .list BlockRecord.toJson t.blockRecords),
    ("function_records", .list FunctionRecord.toJson t.functionRecords)]

end FlowRecovery
