/-
The code of an x86 instruction.

Control transfers are modelled exactly.  Everything else becomes reads and writes
of registers and memory around an operation that is named after the mnemonic and
not modelled further.
-/
import FlowRecovery.Image
import FlowRecovery.Lifted.Emit
import FlowRecovery.X86.Insn

namespace FlowRecovery.X86

open Emit

/-- Where an instruction stands. -/
structure Frame where
  arch : Arch
  pc : Addr
  /-- The address of the instruction behind it. -/
  next : Addr
  deriving DecidableEq, Repr

namespace Frame

/-- A value cut to the width of an address. -/
def mask (f : Frame) (value : Word) : Word :=
  match f.arch with
  | .x86 => value &&& 0xffffffff
  | .x86_64 => value

/-- The width of an address in bytes. -/
def width (f : Frame) : UInt8 := UInt8.ofNat f.arch.pointerSize

/-- The stack pointer. -/
def stackPointer (f : Frame) : String :=
  match f.arch with
  | .x86 => "esp"
  | .x86_64 => "rsp"

/-- The register that counts repetitions. -/
def counter (f : Frame) : String :=
  match f.arch with
  | .x86 => "ecx"
  | .x86_64 => "rcx"

/-- A signed number as an operand. -/
def number (f : Frame) (value : Int64) : Operand := .const (f.mask value.toUInt64)

/-- The scaled index of a memory operand. -/
def scaled (reg : String) (scale : Word) : Emit Operand := do
  let index ← readReg reg
  if 1 < scale.toInt64 then binary .mul index (.const scale) else pure index

/-- The sum of base and scaled index, where there is one. -/
def baseAndIndex (base index : Option String) (scale : Word) : Emit (Option Operand) := do
  match base, index with
  | none, none => pure none
  | some base, none => some <$> readReg base
  | none, some index => some <$> scaled index scale
  | some base, some index =>
    let base ← readReg base
    let index ← scaled index scale
    some <$> binary .add base index

/-- Whether the register is the program counter. -/
def isProgramCounter (reg : Option String) : Bool := reg == some "rip" || reg == some "eip"

/-- The address of a memory operand.  Relative to the program counter it is known. -/
def address (f : Frame) (base index : Option String) (scale : Word) (disp : Int64) :
    Emit Operand := do
  if isProgramCounter base then pure (.const (f.mask (f.next + disp.toUInt64)))
  else
    match ← baseAndIndex base index scale with
    | none => pure (f.number disp)
    | some sum => if disp = 0 then pure sum else binary .add (f.number disp) sum

/-- Read an operand. -/
def read (f : Frame) (a : Arg) : Emit Operand :=
  match a.place with
  | .reg (some name) => readReg name
  | .reg none => pure (.const 0)
  | .imm value => pure (f.number value)
  | .mem base index scale disp => do load (← f.address base index scale disp) a.size

/-- Read operands in order. -/
def readAll (f : Frame) : List Arg → Emit (List Operand)
  | [] => pure []
  | a :: rest => do
    let value ← f.read a
    let values ← f.readAll rest
    pure (value :: values)

/-- Write an operand. -/
def write (f : Frame) (a : Arg) (value : Operand) : Emit Unit :=
  match a.place with
  | .reg (some name) => writeReg name value
  | .mem base index scale disp => do store (← f.address base index scale disp) value a.size
  | _ => pure ()

/-- The width of an address as an operand, plus so many bytes. -/
def widthPlus (f : Frame) (extra : Word) : Operand := .const (f.width.toUInt64 + extra)

/-- Push a value. -/
def push (f : Frame) (value : Operand) : Emit Unit := do
  let old ← readReg f.stackPointer
  let new ← binary .sub old (f.widthPlus 0)
  store new value f.width
  writeReg f.stackPointer new

/-- Pop a value, and release so many bytes above it. -/
def pop (f : Frame) (extra : Word) : Emit Operand := do
  let old ← readReg f.stackPointer
  let value ← load old f.width
  let new ← binary .add old (f.widthPlus extra)
  writeReg f.stackPointer new
  pure value

/-- Copy a value. -/
def move (f : Frame) (dst src : Arg) : Emit Unit := do f.write dst (← f.read src)

/-- An operation for its effects only. -/
def operate (f : Frame) (name : String) (args : List Arg) : Emit Unit := do
  effect name (← f.readAll args)

/-- An operation on all operands that writes its result to the first. -/
def compute (f : Frame) (name : String) (dst : Arg) (args : List Arg) : Emit Unit := do
  f.write dst (← helper name (← f.readAll args))

/-- The code of an instruction that transfers no control. -/
def straight (f : Frame) (name : String) (args : List Arg) : Emit Unit :=
  if name ∈ ["nop", "endbr64", "endbr32"] then pure ()
  else if name = "hlt" then halt
  else if name ∈ ["cmp", "test", "bt"] then f.operate name args
  else
    match args with
    | [dst, src] =>
      if name ∈ ["mov", "movabs", "movzx", "movsx", "movsxd"] then f.move dst src
      else if name = "lea" then
        match src.place with
        | .mem base index scale disp => do f.write dst (← f.address base index scale disp)
        | _ => pure ()
      else other args
    | [arg] =>
      if name = "push" then do f.push (← f.read arg)
      else if name = "pop" then do f.write arg (← f.pop 0)
      else other args
    | _ => other args
where
  /-- The code of an instruction that is not modelled further. -/
  other (args : List Arg) : Emit Unit :=
    match args with
    | dst :: _ => if dst.imm?.isSome then f.operate name args else f.compute name dst args
    | [] => f.operate name args

/-- The code of an indirect transfer's destination. -/
def destination (f : Frame) (args : List Arg) : Emit Operand :=
  match args with
  | a :: _ => f.read a
  | [] => pure (.const 0)

/-- The code of a return. -/
def returning (f : Frame) (direct : Option Word) : Emit (BlockKind × Operand) := do
  pure (.ret, ← f.pop (direct.getD 0))

/-- The code of a call. -/
def calling (f : Frame) (direct : Option Word) (args : List Arg) : Emit (BlockKind × Operand) := do
  match direct with
  | some callee =>
    f.push (.pc f.next)
    pure (.call, .pc callee)
  | none =>
    let callee ← f.destination args
    f.push (.pc f.next)
    pure (.callIndirect, callee)

/-- The code of a jump. -/
def jumping (f : Frame) (i : Insn) (direct : Option Word) : Emit (BlockKind × Operand) := do
  let taken ← match direct with
    | some target => pure (Operand.pc target)
    | none => f.destination i.args
  if i.isConditional then
    let cond ← helper ("cond_" ++ i.name) []
    let target ← select cond taken (.pc f.next)
    pure (if direct.isSome then .condJump else .condJumpIndirect, target)
  else pure (if direct.isSome then .jump else .jumpIndirect, taken)

/-- The code of a repeated operation. -/
def repeating (f : Frame) (i : Insn) : Emit (BlockKind × Operand) := do
  f.operate i.name i.args
  let count ← readReg f.counter
  let cond ← helper "rep_continue" [count]
  let target ← select cond (.pc f.pc) (.pc f.next)
  pure (.repeatedOp, target)

/-- The code of an instruction, and how it ends its unit, if it does. -/
def lower (f : Frame) (i : Insn) : Emit (Option (BlockKind × Operand)) := do
  begin f.pc
  let direct := (i.args.head?.bind Arg.imm?).map fun value => f.mask value.toUInt64
  if i.returns then some <$> f.returning direct
  else if i.calls then some <$> f.calling direct i.args
  else if i.jumps then some <$> f.jumping i direct
  else if i.repeats then some <$> f.repeating i
  else
    f.straight i.name i.args
    pure (if i.name = "hlt" then some (.fallthrough, .pc f.next) else none)

end Frame

end FlowRecovery.X86
