/-
Records of the history as JSON, and the history as the contents of a file.

A file starts with a mark that no text starts with; an empty file, or one of a
single byte, is a history without tables.
-/
import FlowRecovery.Binary
import FlowRecovery.History
import FlowRecovery.Json.Record

namespace FlowRecovery

namespace RunRecord

/-- The run as JSON. -/
def toJson (r : RunRecord) : Json :=
  .obj [("binary", .str r.binary), ("binary_hash", .opt .str r.binaryHash), ("arch", .str r.arch),
    ("entry_points", .list .word r.entryPoints), ("status", .str r.status.name),
    ("error", .opt .str r.error), ("blocks", .word r.blocks), ("functions", .word r.functions),
    ("relocations", .word r.relocations), ("started_at", .str r.startedAt),
    ("finished_at", .str r.finishedAt)]

/-- The names of the fields in the order in which they are written. -/
def fieldNames : List String :=
  ["binary", "binary_hash", "arch", "entry_points", "status", "error", "blocks", "functions",
    "relocations", "started_at", "finished_at"]

/-- Read a run. -/
def ofJson? (j : Json) : Option RunRecord := do
  let r ← j.fields? fieldNames
  return { binary := ← r.required "binary" Json.str?
           binaryHash := ← r.optional "binary_hash" Json.str?
           arch := ← r.required "arch" Json.str?
           entryPoints := ← r.required "entry_points" (Json.list? Json.word?)
           status := .ofName (← r.required "status" Json.str?)
           error := ← r.optional "error" Json.str?
           blocks := ← r.required "blocks" Json.word?
           functions := ← r.required "functions" Json.word?
           relocations := ← r.required "relocations" Json.word?
           startedAt := ← r.required "started_at" Json.str?
           finishedAt := ← r.required "finished_at" Json.str? }

end RunRecord

namespace BlockRecord

/-- The block as JSON. -/
def toJson (r : BlockRecord) : Json :=
  .obj [("address", .word r.address), ("size", .word r.size), ("kind", .str r.kind)]

/-- Read a block. -/
def ofJson? (j : Json) : Option BlockRecord := do
  let r ← j.fields? ["address", "size", "kind"]
  return { address := ← r.required "address" Json.word?, size := ← r.required "size" Json.word?
           kind := ← r.required "kind" Json.str? }

end BlockRecord

namespace FunctionRecord

/-- The function as JSON. -/
def toJson (r : FunctionRecord) : Json :=
  .obj [("name", .str r.name), ("entry", .word r.entry), ("low", .word r.low),
    ("high", .word r.high), ("blocks", .word r.blocks)]

/-- Read a function. -/
def ofJson? (j : Json) : Option FunctionRecord := do
  let r ← j.fields? ["name", "entry", "low", "high", "blocks"]
  return { name := ← r.required "name" Json.str?, entry := ← r.required "entry" Json.word?
           low := ← r.required "low" Json.word?, high := ← r.required "high" Json.word?
           blocks := ← r.required "blocks" Json.word? }

end FunctionRecord

namespace RunRow

/-- The row as JSON. -/
def toJson (r : RunRow) : Json :=
  .arr [.nat r.id, .str r.binary, .opt .str r.binaryHash, .str r.arch, .str r.entryPoints,
    .str r.status, .opt .str r.error, .int64 r.blocks, .int64 r.functions, .int64 r.relocations,
    .str r.startedAt, .str r.finishedAt]

/-- Read a row. -/
def ofJson? : Json → Option RunRow
  | .arr [.int false id, .str binary, hash, .str arch, .str entryPoints, .str status, error,
      blocks, functions, relocations, .str startedAt, .str finishedAt] => do
    return { id, binary, binaryHash := ← Json.nullable Json.str? hash, arch, entryPoints, status
             error := ← Json.nullable Json.str? error, blocks := ← blocks.int64?
             functions := ← functions.int64?, relocations := ← relocations.int64?, startedAt
             finishedAt }
  | _ => none

end RunRow

namespace BlockRow

/-- The row as JSON. -/
def toJson (r : BlockRow) : Json := .arr [.nat r.run, .str r.address, .int64 r.size, .str r.kind]

/-- Read a row. -/
def ofJson? : Json → Option BlockRow
  | .arr [.int false run, .str address, size, .str kind] =>
    return { run, address, size := ← size.int64?, kind }
  | _ => none

end BlockRow

namespace FunctionRow

/-- The row as JSON. -/
def toJson (r : FunctionRow) : Json :=
  .arr [.nat r.run, .str r.name, .str r.entry, .str r.low, .str r.high, .int64 r.blocks]

/-- Read a row. -/
def ofJson? : Json → Option FunctionRow
  | .arr [.int false run, .str name, .str entry, .str low, .str high, blocks] =>
    return { run, name, entry, low, high, blocks := ← blocks.int64? }
  | _ => none

end FunctionRow

namespace History

/-- The history as JSON. -/
def toJson (h : History) : Json :=
  .arr [.int (h.version < 0) h.version.natAbs, .list RunRow.toJson h.runRows, .nat h.lastId,
    .opt (.list BlockRow.toJson) h.blockRows, .opt (.list FunctionRow.toJson) h.functionRows]

/-- Read a history. -/
def ofJson? : Json → Option History
  | .arr [.int negative version, runs, .int false lastId, blocks, functions] => do
    return { version := if negative then -version else version
             runRows := ← runs.list? RunRow.ofJson?, lastId
             blockRows := ← Json.nullable (Json.list? BlockRow.ofJson?) blocks
             functionRows := ← Json.nullable (Json.list? FunctionRow.ofJson?) functions }
  | _ => none

/-- What the file of a history starts with. -/
def fileMark : List UInt8 := [0x89, 0x52, 0x55, 0x4e, 0x53, 0x0a]

/-- The history as the contents of a file. -/
def toBytes (h : History) : Bytes := fileMark.toArray ++ h.toJson.compact.toUTF8.data

/-- The history in a file. -/
def ofBytes? (contents : Bytes) : Option History :=
  if contents.size ≤ 1 then some {}
  else if contents.toList.take fileMark.length = fileMark then do
    ofJson? (← Json.parse? (← Binary.text? (contents.toList.drop fileMark.length)))
  else none

end History

end FlowRecovery
