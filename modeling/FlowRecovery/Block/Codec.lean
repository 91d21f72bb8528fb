/-
Lifted units and blocks as JSON.
-/
import FlowRecovery.Block
import FlowRecovery.Module.Codec

namespace FlowRecovery

/-- Read a kind by its name. -/
def BlockKind.ofJson? (j : Json) : Option BlockKind := j.str?.bind BlockKind.ofName?

namespace Lifted

/-- The unit as JSON. -/
def toJson (u : Lifted) : Json :=
  .obj [("address", .word u.address), ("size", .word u.size), ("kind", .str u.kind.name),
    ("body", u.body.toJson)]

/-- Read a unit. -/
def ofJson? (j : Json) : Option Lifted := do
  let r ← j.fields? ["address", "size", "kind", "body"]
  return { address := ← r.required "address" Json.word?, size := ← r.required "size" Json.word?
           kind := ← r.required "kind" BlockKind.ofJson?
           body := ← r.required "body" Body.ofJson? }

end Lifted

namespace Block

/-- The block as JSON. -/
def toJson (b : Block) : Json :=
  .obj [("address", .word b.address), ("size", .word b.size), ("kind", .str b.kind.name),
    ("body", b.body.toJson), ("successors", .addrs b.successors),
    ("call_targets", .addrs b.callTargets), ("does_not_return", .bool b.halts)]

/-- Read a block; it goes nowhere and returns unless something else is given. -/
def ofJson? (j : Json) : Option Block := do
  let u ← Lifted.ofJson? j
  let r ← j.fields? ["successors", "call_targets", "does_not_return"]
  let addrs (name : String) : Option AddrSet :=
    (r.withDefault name [] (Json.list? Json.word?)).map .ofList
  return { address := u.address, size := u.size, kind := u.kind, body := u.body
           successors := ← addrs "successors", callTargets := ← addrs "call_targets"
           halts := ← r.withDefault "does_not_return" false Json.bool? }

end Block

end FlowRecovery
