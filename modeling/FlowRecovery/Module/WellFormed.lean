/-
When functions and modules are well formed, and the checks that decide it.

`Func.check` looks at one function: its labels, the terminator of every block,
raw transfers that should be gone, and its temporaries.  `Module.verify` checks
every function and then what they refer to across the module.
-/
import FlowRecovery.Fault
import FlowRecovery.Module

namespace FlowRecovery

/-- The first element that occurs among `seen` or before itself. -/
def firstRepeat? {α : Type} [DecidableEq α] (seen : List α) : List α → Option α
  | [] => none
  | a :: l => if a ∈ seen then some a else firstRepeat? (a :: seen) l

namespace Func

/-- Check one instruction: `isLast` says whether it ends its block. -/
def checkInst (labels : List String) (label : String) (isLast : Bool) (i : Inst) :
    Except FuncFault Unit :=
  if i.isTerminator && !isLast then .error (.terminatorInside label)
  else
    match i with
    | .branch _ => .error (.rawTransfer label)
    | .exit => .error (.rawTransfer label)
    | .jump target => if target ∈ labels then .ok () else .error (.unknownJump target)
    | .condJump _ thenLabel elseLabel =>
      if thenLabel ∉ labels then .error (.unknownBranch thenLabel)
      else if elseLabel ∉ labels then .error (.unknownBranch elseLabel)
      else .ok ()
    | _ => .ok ()

/-- Check the instructions of a block in order. -/
def checkInsts (labels : List String) (label : String) : List Inst → Except FuncFault Unit
  | [] => .ok ()
  | i :: rest => do
    checkInst labels label rest.isEmpty i
    checkInsts labels label rest

/-- Check a block against the labels of its function. -/
def checkBlock (labels : List String) (b : CodeBlock) : Except FuncFault Unit :=
  match b.insts.getLast? with
  | none => .error (.emptyBlock b.label)
  | some last =>
    if last.isTerminator then checkInsts labels b.label b.insts else .error (.noTerminator b.label)

/-- Check that every temporary read is among those defined, and every one defined in range. -/
def checkTemps (next : Temp) (defined : List Temp) : List Inst → Except TempFault Unit
  | [] => .ok ()
  | i :: rest =>
    match i.uses.find? (!defined.contains ·) with
    | some t => .error (.usedBeforeDefinition t)
    | none =>
      match i.def? with
      | none => checkTemps next defined rest
      | some t => if next ≤ t then .error (.outOfRange t next) else checkTemps next defined rest

/-- Check the temporaries of a function: each is defined once, wherever it is read. -/
def checkAllTemps (next : Temp) (insts : List Inst) : Except TempFault Unit :=
  let defined := insts.filterMap Inst.def?
  match firstRepeat? [] defined with
  | some t => .error (.definedTwice t)
  | none => checkTemps next defined insts

/-- Check a function. -/
def check (f : Func) : Except FuncFault Unit := do
  if f.blocks.isEmpty then throw .noBlocks
  let labels := f.blocks.map (·.label)
  if let some label := firstRepeat? [] labels then throw (.duplicateLabel label)
  f.blocks.forM (checkBlock labels)
  (checkAllTemps f.nextTemp f.insts).mapError .temporaries

/-- Check a function, naming it. -/
def verify (f : Func) : Except VerifyError Unit := f.check.mapError (.function f.name)

end Func

namespace Module

/-- Check functions one after the other, and that no name comes again. -/
def checkFunctions (names : List String) : List Func → Except VerifyError Unit
  | [] => .ok ()
  | f :: rest => do
    f.verify
    if f.name ∈ names then throw (.module (.duplicateFunction f.name))
    checkFunctions (f.name :: names) rest

/-- Check the operands of an instruction against the globals. -/
def checkOperand (m : Module) : Operand → Except ReferenceFault Unit
  | .dataRef global offset _ =>
    match m.global? global with
    | some g => if offset < max g.size 1 then .ok () else .error (.offsetPast offset global)
    | none => .error (.unknownGlobal global)
  | _ => .ok ()

/-- Check what a call refers to. -/
def checkCall (m : Module) : Inst → Except ReferenceFault Unit
  | .callMarker target _ _ => .error (.unresolvedCall target)
  | .call (.function name _) _ =>
    if (m.function? name).isSome then .ok () else .error (.unknownFunction name)
  | .call (.imported wrapper _ _) _ =>
    if (m.function? wrapper).isSome then .ok () else .error (.unknownWrapper wrapper)
  | _ => .ok ()

/-- Check what an instruction refers to. -/
def checkReferences (m : Module) (i : Inst) : Except ReferenceFault Unit := do
  m.checkCall i
  i.operands.forM m.checkOperand

/-- Check every function and every reference between them. -/
def verify (m : Module) : Except VerifyError Unit := do
  checkFunctions [] m.allFunctions
  m.allFunctions.forM fun f =>
    f.insts.forM fun i => (m.checkReferences i).mapError fun e => .module (.reference e f.name)

end Module

end FlowRecovery
