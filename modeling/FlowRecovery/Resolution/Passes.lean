/-
The resolution of a module: relocations, then numbers, then calls, then a check
of the result.  A module that cannot be resolved is answered as far as it got.
-/
import FlowRecovery.Resolution.Calls
import FlowRecovery.Resolution.Relocations

namespace FlowRecovery

namespace Module

/-- Count the accesses to memory, and those whose address is known. -/
def countAccesses (m : Module) (stats : ResolveStats) : ResolveStats :=
  let accessed := m.insts.filterMap Inst.accessed?
  { stats with
    memoryAccesses := accessed.length
    hardcodedAccesses := accessed.countP (·.staticAddress?.isSome) }

/-- Take over the counts of calls. -/
def countCalls (calls : Calls) (stats : ResolveStats) : ResolveStats :=
  { stats with
    directCalls := calls.direct
    importCalls := calls.imported
    indirectCalls := calls.indirect
    wrappers := calls.wrappers.size }

/-- Resolve a module against the image and the blocks that it was made from. -/
def resolve (m : Module) (image : Image) (store : Store) :
    Module × Checked ResolveError ResolveStats :=
  let r := Resolver.ofModule image store m
  let patched := r.patchAll {} m.functions image.relocations
  let m := { m with globals := image.globals, functions := patched.value }
  match patched.stop with
  | some e => (m, .error e)
  | none =>
    let replaced := r.countReplaced m.functions
    let m := { m with functions := m.functions.map r.replaceInFunc }
    let stats := m.countAccesses { patched.state with replacedConstants := replaced }
    let called := r.resolveCalls m.functions
    let m := { m with functions := called.value }
    match called.stop with
    | some e => (m, .error e)
    | none =>
      let m := { m with wrappers := called.state.wrappers.values }
      (m, (Checked.lift (m.verify.mapError .verify)).map fun _ => countCalls called.state stats)

end Module

end FlowRecovery
