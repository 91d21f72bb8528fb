/-
Assembly: from the blocks of a function to its code.

The blocks are emitted one after the other, the entry first and the others in
address order.  The temporaries of every block are shifted behind those of the
blocks before it.  The raw branch at the end of a block becomes a jump if it
stays in the function, and a jump marker with a return if it leaves it.  The arms
of a conditional transfer that leave the function do so through blocks of their
own, which stand at the end.
-/
import FlowRecovery.Layout
import FlowRecovery.Module.WellFormed

namespace FlowRecovery

/-- What the blocks emitted so far have used up. -/
structure Assembly where
  nextTemp : Temp := 0
  /-- The blocks through which conditional transfers leave the function. -/
  exits : List CodeBlock := []
  deriving DecidableEq, Repr, Inhabited

/-- The label of the block at an address. -/
def blockLabel (a : Addr) : String := "bb_" ++ Text.hex a

/-- Leave the function through the target. -/
def leave (target : Operand) : List Inst := [.jumpMarker target, .ret]

/-- Go to an address: by a jump inside the function, else by leaving it. -/
def transfer (members : AddrSet) (target : Addr) : List Inst :=
  if target ∈ members then [.jump (blockLabel target)] else leave (.pc target)

/-- Take the raw end off the code: the trailing exit, then the trailing branch,
whose target is answered. -/
def dropBranch (insts : List Inst) : List Inst × Option Operand :=
  let insts := if insts.getLast? = some .exit then insts.dropLast else insts
  match insts.getLast? with
  | some (.branch target) => (insts.dropLast, some target)
  | _ => (insts, none)

namespace Assembly

variable {ε : Type}

/-- A temporary that has not been used. -/
def fresh (s : Assembly) : Checked ε (Temp × Assembly) := do
  return (s.nextTemp, { s with nextTemp := ← checkedAdd32 s.nextTemp 1 })

/-- Make sure that there is an exit block with the label. -/
def exitVia (s : Assembly) (label : String) (target : Operand) : Assembly :=
  if s.exits.any (·.label == label) then s
  else { s with exits := s.exits ++ [{ label, insts := leave target }] }

/-- The label for one arm of a conditional transfer of the block at `source`. -/
def arm (members : AddrSet) (source target : Addr) (s : Assembly) : String × Assembly :=
  if target ∈ members then (blockLabel target, s)
  else
    let label := blockLabel source ++ "_exit_" ++ Text.hex target
    (label, s.exitVia label (.pc target))

/-- The code that ends a block with a choice: whether the next program counter
is the known target, then one label and else the other. -/
def choice (branch : Operand) (known : Addr) (cond : Temp) (thenLabel elseLabel : String) :
    List Inst :=
  [.binary cond .eq branch (.pc known), .condJump (.temp cond) thenLabel elseLabel]

/-- The code that ends a block of the function that starts at `entry`. -/
def ending (entry : Addr) (members : AddrSet) (b : Block) (branch : Option Operand)
    (s : Assembly) : Checked AssembleError (List Inst × Assembly) :=
  match b.kind, b.body.staticTargets, branch with
  | .fallthrough, target :: _, _ => .ok (transfer members target, s)
  | .fallthrough, [], _ => do return (transfer members (← b.limit), s)
  | .jump, target :: _, _ => .ok (transfer members target, s)
  | .condJump, [taken, other], some branch => conditional taken other branch
  | .repeatedOp, [taken, other], some branch => conditional taken other branch
  | .condJumpIndirect, known :: _, some branch => do
    let (cond, s) ← s.fresh
    let (thenLabel, s) := arm members b.address known s
    let elseLabel := blockLabel b.address ++ "_indirect"
    return (choice branch known cond thenLabel elseLabel, s.exitVia elseLabel branch)
  | .jumpIndirect, _, some branch => .ok (leave branch, s)
  | .call, _, _ => do return (transfer members (← b.limit), s)
  | .callIndirect, _, _ => do return (transfer members (← b.limit), s)
  | .ret, _, _ => .ok ([.ret], s)
  | _, _, _ => Checked.refuse (.missingTarget entry b.address)
where
  /-- End the block with a choice between two known targets. -/
  conditional (taken other : Addr) (branch : Operand) :
      Checked AssembleError (List Inst × Assembly) := do
    let (cond, s) ← s.fresh
    let (thenLabel, s) := arm members b.address taken s
    let (elseLabel, s) := arm members b.address other s
    return (choice branch taken cond thenLabel elseLabel, s)

/-- Emit one block of the function that starts at `entry`. -/
def emit (entry : Addr) (members : AddrSet) (b : Block) (s : Assembly) :
    Checked AssembleError (CodeBlock × Assembly) := do
  let body ← b.body.shift s.nextTemp
  let s := { s with nextTemp := body.nextTemp }
  let (insts, branch) := dropBranch body.insts
  let (final, s) ← if b.halts then pure ([.ret], s) else ending entry members b branch s
  return ({ label := blockLabel b.address, insts := insts ++ final }, s)

/-- Emit blocks in order. -/
def emitAll (entry : Addr) (members : AddrSet) (s : Assembly) :
    List Block → Checked AssembleError (List CodeBlock × Assembly)
  | [] => .ok ([], s)
  | b :: rest => do
    let (code, s) ← emit entry members b s
    let (codes, s) ← emitAll entry members s rest
    return (code :: codes, s)

end Assembly

namespace Store

/-- The code of the function that starts at `entry`. -/
def assemble (s : Store) (naming : Naming) (entries : AddrSet) (entry : Addr) :
    Checked AssembleError Func := do
  let members := s.closure entries entry
  match s.get? entry with
  | none => Checked.refuse (.unknownEntry entry)
  | some first =>
    let others := (members.toList.filter (· ≠ entry)).filterMap s.get?
    let (blocks, last) ← Assembly.emitAll entry members {} (first :: others)
    let func : Func :=
      { name := naming.name entry, address := entry, blocks := blocks ++ last.exits
        nextTemp := last.nextTemp }
    Checked.lift (func.verify.mapError .verify)
    return func

/-- The code and the layouts of the functions with the given entries, in address order. -/
def assembleAll (s : Store) (naming : Naming) (entries : AddrSet) :
    Checked AssembleError (List (Func × Layout)) :=
  entries.toList.mapM fun entry => do
    let func ← s.assemble naming entries entry
    let layout ← s.layout naming entries entry
    return (func, layout)

end Store

end FlowRecovery
