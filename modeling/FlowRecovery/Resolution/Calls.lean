/-
Call markers become calls.

A static call goes to a function of the module, or through an import stub to an
import.  Any other call goes to an import if its target was loaded from the slot
of one, and is an indirect call if not.  Every called import gets one wrapper,
a function that does nothing but call it.
-/
import FlowRecovery.Resolution

namespace FlowRecovery

/-- The wrappers made so far by slots, and how many calls of each kind there were. -/
structure Calls where
  wrappers : AddrMap Func := ∅
  direct : Nat := 0
  imported : Nat := 0
  indirect : Nat := 0
  deriving DecidableEq, Repr, Inhabited

/-- Where a sweep over the instructions of a block stands. -/
structure CallScan where
  calls : Calls
  /-- The machine instruction that the next instruction belongs to. -/
  site : Addr
  /-- The instructions before it, the last one first. -/
  before : List Inst := []

/-- The static address that the last load into the temporary reads from; loads from
other addresses do not count. -/
def loadedFrom? (t : Temp) (before : List Inst) : Option Addr :=
  before.findSome? fun
    | .load dst addr _ => if dst = t then addr.staticAddress? else none
    | _ => none

namespace Resolver

/-- The import at the slot, with the slot. -/
def importAt? (r : Resolver) (slot : Addr) : Option (Addr × Import) :=
  (r.image.imports.get? slot).map (slot, ·)

/-- The wrapper of an import. -/
def wrapper (r : Resolver) (wrappers : AddrMap Func) (slot : Addr) (i : Import) : Func :=
  let name := "import_" ++ plainName i.name
  let taken := wrappers.values.any (·.name == name)
  { name := if taken then name ++ "_" ++ Text.hex slot else name
    address := slot
    blocks := [{ label := "entry", insts := [.importCall i.name i.library r.image.convention, .ret] }]
    nextTemp := 0 }

/-- A call of an import through its wrapper, which is made if there is none. -/
def importCallee (r : Resolver) (wrappers : AddrMap Func) (slot : Addr) (i : Import) :
    Callee × AddrMap Func :=
  match wrappers.get? slot with
  | some w => (.imported w.name i.name slot, wrappers)
  | none =>
    let w := r.wrapper wrappers slot i
    (.imported w.name i.name slot, wrappers.insert slot w)

/-- The slot that the import stub at an address loads its destination from. -/
def stubSlot? {ε : Type} (r : Resolver) (a : Addr) : Checked ε (Option Addr) :=
  match r.store.get? a with
  | some b => b.stubSlot
  | none => .ok none

/-- What a call marker calls. -/
def callee (r : Resolver) (scan : CallScan) (target : Operand) (isStatic : Bool) :
    Checked ResolveError (Callee × AddrMap Func) := do
  let wrappers := scan.calls.wrappers
  if isStatic then
    let a := target.staticAddress?.getD 0
    match r.functions.get? a with
    | some name => return (.function name a, wrappers)
    | none =>
      match (← r.stubSlot? a).bind r.importAt? with
      | some (slot, i) => return r.importCallee wrappers slot i
      | none => Checked.refuse (.unresolvedCall scan.site a)
  else
    match (target.temp?.bind (loadedFrom? · scan.before)).bind r.importAt? with
    | some (slot, i) => return r.importCallee wrappers slot i
    | none => return (.indirect target, wrappers)

/-- Count a call. -/
def count (calls : Calls) (wrappers : AddrMap Func) : Callee → Calls
  | .function _ _ => { calls with wrappers, direct := calls.direct + 1 }
  | .imported _ _ _ => { calls with wrappers, imported := calls.imported + 1 }
  | .indirect _ => { calls with wrappers, indirect := calls.indirect + 1 }

/-- Resolve an instruction, if it is a call marker. -/
def resolveInst (r : Resolver) (scan : CallScan) (i : Inst) : Swept ResolveError CallScan Inst :=
  let next := { scan with before := i :: scan.before }
  match i with
  | .marker pc => { state := { next with site := pc }, value := i }
  | .callMarker target isStatic state =>
    match r.callee scan target isStatic with
    | .error e => { state := scan, value := i, stop := some e }
    | .ok (callee, wrappers) =>
      { state := { next with calls := count scan.calls wrappers callee }
        value := .call callee state }
  | _ => { state := next, value := i }

/-- Resolve the calls of a block of the function at an address. -/
def resolveBlock (r : Resolver) (a : Addr) (calls : Calls) (b : CodeBlock) :
    Swept ResolveError Calls CodeBlock :=
  let swept := b.sweepInsts r.resolveInst { calls, site := a }
  { swept with state := swept.state.calls }

/-- Resolve the calls of a function. -/
def resolveFunc (r : Resolver) (calls : Calls) (f : Func) : Swept ResolveError Calls Func :=
  f.sweepBlocks (r.resolveBlock f.address) calls

/-- Resolve the calls of functions in order. -/
def resolveCalls (r : Resolver) (functions : List Func) : Swept ResolveError Calls (List Func) :=
  sweep r.resolveFunc {} functions

end Resolver

end FlowRecovery
