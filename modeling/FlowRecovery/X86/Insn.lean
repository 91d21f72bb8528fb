/-
Decoded x86 instructions.

A decoder answers for an address with the instruction there, if the bytes are
one.  An instruction is a mnemonic, its operands, and whether it returns, calls
or jumps.
-/
import FlowRecovery.Text.Lower
import FlowRecovery.Text.Trim
import FlowRecovery.Word

namespace FlowRecovery.X86

/-- What an operand refers to. -/
inductive Place where
  /-- A register; none if there is no such register. -/
  | reg (name : Option String)
  | imm (value : Int64)
  /-- Memory at the base, plus the index times the scale, plus the displacement. -/
  | mem (base index : Option String) (scale : Word) (disp : Int64)
  deriving DecidableEq, Repr, Inhabited

/-- An operand and its width in bytes. -/
structure Arg where
  place : Place
  size : UInt8
  deriving DecidableEq, Repr, Inhabited

/-- The value of an immediate operand. -/
def Arg.imm? (a : Arg) : Option Int64 :=
  match a.place with
  | .imm value => some value
  | _ => none

/-- A decoded instruction. -/
structure Insn where
  /-- Its length in bytes. -/
  size : Word
  /-- The mnemonic as the decoder writes it. -/
  mnemonic : String
  returns : Bool := false
  calls : Bool := false
  jumps : Bool := false
  args : List Arg := []
  deriving DecidableEq, Repr, Inhabited

namespace Insn

/-- The mnemonic in lower case, without hints to the processor. -/
def name (i : Insn) : String :=
  Text.dropLeadingStr "notrack " (Text.dropLeadingStr "bnd " (Text.lower i.mnemonic))

/-- Whether the instruction repeats a string operation. -/
def repeats (i : Insn) : Bool := i.name.startsWith "rep"

/-- Whether the jump depends on a condition. -/
def isConditional (i : Insn) : Bool :=
  (i.name.startsWith "j" && i.name != "jmp") || i.name.startsWith "loop"

/-- Whether a unit ends with the instruction. -/
def endsUnit (i : Insn) : Bool := i.returns || i.calls || i.jumps || i.repeats || i.name == "hlt"

end Insn

/-- A decoder, address by address. -/
abbrev Decoder := Addr → Option Insn

end FlowRecovery.X86
