/-
Lifted units: what a lifter answers for an address.

A unit is a body, the bytes it was lifted from, and how it ends.  A lifter is a
function from addresses to units or faults; a decode fault only costs the
address it happened at, every other fault ends the exploration.
-/
import FlowRecovery.Body
import FlowRecovery.Text.Digits

namespace FlowRecovery

/-- How a unit ends. -/
inductive BlockKind where
  | fallthrough | jump | jumpIndirect | condJump | condJumpIndirect
  | call | callIndirect | repeatedOp | ret
  deriving DecidableEq, Repr, Inhabited

namespace BlockKind

/-- The name of a kind. -/
def name : BlockKind → String
  | .fallthrough => "fallthrough"
  | .jump => "jump"
  | .jumpIndirect => "jump_indirect"
  | .condJump => "cond_jump"
  | .condJumpIndirect => "cond_jump_indirect"
  | .call => "call"
  | .callIndirect => "call_indirect"
  | .repeatedOp => "repeated_op"
  | .ret => "return"

/-- Every kind. -/
def all : List BlockKind :=
  [.fallthrough, .jump, .jumpIndirect, .condJump, .condJumpIndirect, .call, .callIndirect,
    .repeatedOp, .ret]

/-- The kind with the given name. -/
def ofName? (s : String) : Option BlockKind := all.find? (·.name == s)

/-- Whether the unit ends with a call. -/
def isCall : BlockKind → Bool
  | .call => true
  | .callIndirect => true
  | _ => false

/-- Whether execution may go on behind the unit. -/
def fallsThrough : BlockKind → Bool
  | .ret => false
  | .jump => false
  | .jumpIndirect => false
  | _ => true

end BlockKind

/-- One lifted unit. -/
structure Lifted where
  address : Addr
  size : Word
  kind : BlockKind
  body : Body
  deriving DecidableEq, Repr, Inhabited

/-- Why an address could not be lifted. -/
inductive LiftFault where
  | invalidAddress (address : Addr)
  | invalidInstruction (address : Addr)
  | busy
  | notReady
  | backend (message : String)
  deriving DecidableEq, Repr, Inhabited

namespace LiftFault

/-- The text of a fault. -/
def message : LiftFault → String
  | .invalidAddress a => "address " ++ Text.addr a ++ " is not mapped executable code"
  | .invalidInstruction a => "invalid instruction at " ++ Text.addr a
  | .busy => "the lifter is already in use"
  | .notReady => "the lifter has not been initialised"
  | .backend text => "lifter backend error: " ++ text

/-- Whether the fault only costs the address it happened at. -/
def recoverable : LiftFault → Bool
  | .invalidAddress _ => true
  | .invalidInstruction _ => true
  | _ => false

end LiftFault

/-- What a lifter answers, address by address. -/
abbrev LiftFn := Addr → Except LiftFault Lifted

end FlowRecovery
