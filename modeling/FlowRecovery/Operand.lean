/-
Operands of the intermediate code.

An operand is a number found in the code, a program-counter literal, a
temporary, the handle of the processor state, or a typed reference that
resolution has put in the place of a number.  `Operand.staticAddress?` is the
address an operand denotes whichever of these forms it has.
-/
import FlowRecovery.Word

namespace FlowRecovery

/-- A virtual register, local to a body or a function. -/
abbrev Temp := UInt32

/-- An operand. -/
inductive Operand where
  /-- A number embedded in the code. -/
  | const (value : Word)
  /-- A program-counter literal: the target of a branch or a call. -/
  | pc (value : Addr)
  | temp (id : Temp)
  /-- The handle of the processor state that the code works on. -/
  | env
  /-- A place inside the global made for a section. -/
  | dataRef (global : String) (offset : Word) (address : Addr)
  | functionRef (name : String) (address : Addr)
  | importRef (name : String) (slot : Addr)
  deriving DecidableEq, Repr, Inhabited

namespace Operand

/-- The temporary that the operand reads. -/
def temp? : Operand → Option Temp
  | .temp id => some id
  | _ => none

/-- The address that the operand denotes, if that is known without running the code. -/
def staticAddress? : Operand → Option Addr
  | .const value => some value
  | .pc value => some value
  | .temp _ => none
  | .env => none
  | .dataRef _ _ address => some address
  | .functionRef _ address => some address
  | .importRef _ slot => some slot

/-- The value of a program-counter literal. -/
def pc? : Operand → Option Addr
  | .pc value => some value
  | _ => none

/-- The value of a number embedded in the code. -/
def const? : Operand → Option Word
  | .const value => some value
  | _ => none

/-- Renumber the temporary that the operand reads. -/
def mapTemp (f : Temp → Temp) : Operand → Operand
  | .temp id => .temp (f id)
  | o => o

end Operand

/-- Operations on two values. -/
inductive BinOp where
  | add | sub | mul | and | or | xor | shl | shr | sar | eq | ne | ult | slt
  deriving DecidableEq, Repr, Inhabited

/-- How a call into another library passes its arguments. -/
inductive Convention where
  /-- System V on x86-64. -/
  | sysv64
  /-- Microsoft on x86-64. -/
  | ms64
  /-- The C convention on 32-bit x86. -/
  | cdecl
  deriving DecidableEq, Repr, Inhabited

/-- The name of a convention. -/
def Convention.name : Convention → String
  | .sysv64 => "sysv64"
  | .ms64 => "ms64"
  | .cdecl => "cdecl"

/-- What a resolved call calls. -/
inductive Callee where
  | function (name : String) (address : Addr)
  | imported (wrapper : String) (name : String) (slot : Addr)
  | indirect (target : Operand)
  deriving DecidableEq, Repr, Inhabited

end FlowRecovery
