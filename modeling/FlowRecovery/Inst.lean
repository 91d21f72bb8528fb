/-
Instructions of the intermediate code.

The instructions cover data movement, operations that are not modelled further
(`helper`), the raw control transfer at the end of a lifted unit (`branch`,
`exit`), the markers that later passes look for, and the terminators of
assembled functions.

What an instruction reads and writes is given by three views: `def?` is the
temporary it defines, `operands` are the operands it reads and `setOperands`
puts others in their place.  `operands_setOperands` and `setOperands_operands`
are the laws of the last two.
-/
import FlowRecovery.Operand

namespace FlowRecovery

/-- An instruction. -/
inductive Inst where
  /-- The program counter moves; comes once per machine instruction. -/
  | setPc (pc : Addr)
  /-- A machine instruction begins: the only places where a block can be split. -/
  | marker (pc : Addr)
  | readReg (dst : Temp) (reg : String)
  | writeReg (reg : String) (value : Operand)
  | binary (dst : Temp) (op : BinOp) (lhs rhs : Operand)
  | select (dst : Temp) (cond ifTrue ifFalse : Operand)
  | load (dst : Temp) (addr : Operand) (size : UInt8)
  | store (addr value : Operand) (size : UInt8)
  /-- An operation that is not modelled further. -/
  | helper (dst : Option Temp) (name : String) (args : List Operand)
  /-- Execution stops here. -/
  | halt
  /-- Raw control transfer: sets the next program counter. -/
  | branch (target : Operand)
  /-- Raw end of a lifted unit. -/
  | exit
  | callMarker (target : Operand) (isStatic : Bool) (state : Operand)
  | returnMarker (target : Operand)
  /-- Control leaves the function through the target. -/
  | jumpMarker (target : Operand)
  | call (callee : Callee) (state : Operand)
  | importCall (name : String) (library : Option String) (convention : Convention)
  | jump (label : String)
  | condJump (cond : Operand) (thenLabel elseLabel : String)
  | ret
  deriving DecidableEq, Repr, Inhabited

namespace Inst

/-- The temporary that the instruction defines. -/
def def? : Inst → Option Temp
  | .readReg dst _ => some dst
  | .binary dst _ _ _ => some dst
  | .select dst _ _ _ => some dst
  | .load dst _ _ => some dst
  | .helper dst _ _ => dst
  | _ => none

/-- The operands that the instruction reads, in order. -/
def operands : Inst → List Operand
  | .writeReg _ value => [value]
  | .binary _ _ lhs rhs => [lhs, rhs]
  | .select _ cond ifTrue ifFalse => [cond, ifTrue, ifFalse]
  | .load _ addr _ => [addr]
  | .store addr value _ => [addr, value]
  | .helper _ _ args => args
  | .branch target => [target]
  | .returnMarker target => [target]
  | .jumpMarker target => [target]
  | .callMarker target _ state => [target, state]
  | .call (.indirect target) state => [target, state]
  | .call _ state => [state]
  | .condJump cond _ _ => [cond]
  | _ => []

/-- Put other operands, as many as there are, in the places of the operands. -/
def setOperands : Inst → List Operand → Inst
  | .writeReg reg _, [value] => .writeReg reg value
  | .binary dst op _ _, [lhs, rhs] => .binary dst op lhs rhs
  | .select dst _ _ _, [cond, ifTrue, ifFalse] => .select dst cond ifTrue ifFalse
  | .load dst _ size, [addr] => .load dst addr size
  | .store _ _ size, [addr, value] => .store addr value size
  | .helper dst name _, args => .helper dst name args
  | .branch _, [target] => .branch target
  | .returnMarker _, [target] => .returnMarker target
  | .jumpMarker _, [target] => .jumpMarker target
  | .callMarker _ isStatic _, [target, state] => .callMarker target isStatic state
  | .call (.indirect _) _, [target, state] => .call (.indirect target) state
  | .call (.function name address) _, [state] => .call (.function name address) state
  | .call (.imported wrapper name slot) _, [state] => .call (.imported wrapper name slot) state
  | .condJump _ thenLabel elseLabel, [cond] => .condJump cond thenLabel elseLabel
  | i, _ => i

/-- Change every operand. -/
def mapOperands (f : Operand → Operand) (i : Inst) : Inst := i.setOperands (i.operands.map f)

/-- Renumber the temporary that the instruction defines. -/
def mapDef (f : Temp → Temp) : Inst → Inst
  | .readReg dst reg => .readReg (f dst) reg
  | .binary dst op lhs rhs => .binary (f dst) op lhs rhs
  | .select dst cond ifTrue ifFalse => .select (f dst) cond ifTrue ifFalse
  | .load dst addr size => .load (f dst) addr size
  | .helper dst name args => .helper (dst.map f) name args
  | i => i

/-- The temporaries that the instruction reads. -/
def uses (i : Inst) : List Temp := i.operands.filterMap Operand.temp?

/-- The temporaries that the instruction defines or reads. -/
def temps (i : Inst) : List Temp := i.def?.toList ++ i.uses

/-- Whether the instruction ends a block of an assembled function. -/
def isTerminator : Inst → Bool
  | .jump _ => true
  | .condJump _ _ _ => true
  | .ret => true
  | _ => false

/-- Renumber every temporary. -/
def mapTemps (f : Temp → Temp) (i : Inst) : Inst := (i.mapDef f).mapOperands (Operand.mapTemp f)

/-- Add `base` to every temporary; none may leave the range of temporaries. -/
def shift {ε : Type} (base : Temp) (i : Inst) : Checked ε Inst :=
  if i.temps.all (fun t => t.toNat + base.toNat < 0x100000000) then .ok (i.mapTemps (· + base))
  else .error .overflow

@[simp] theorem setOperands_operands (i : Inst) : i.setOperands i.operands = i := by
  cases i with
  | call callee state => cases callee <;> rfl
  | _ => rfl

theorem operands_setOperands (i : Inst) (ops : List Operand)
    (h : ops.length = i.operands.length) : (i.setOperands ops).operands = ops := by
  rcases ops with _ | ⟨a, _ | ⟨b, _ | ⟨c, _ | ⟨d, l⟩⟩⟩⟩ <;> cases i with
  | call callee state => cases callee <;> simp_all [operands, setOperands]
  | _ => simp_all [operands, setOperands]

@[simp] theorem operands_mapOperands (f : Operand → Operand) (i : Inst) :
    (i.mapOperands f).operands = i.operands.map f :=
  operands_setOperands i _ (List.length_map f)

@[simp] theorem def?_setOperands (i : Inst) (ops : List Operand) :
    (i.setOperands ops).def? = i.def? := by
  unfold setOperands
  split <;> rfl

end Inst

end FlowRecovery
