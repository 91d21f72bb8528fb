/-
How operands and instructions are shown inside messages: the name of the form,
and the fields in braces.
-/
import FlowRecovery.Inst
import FlowRecovery.Text.Quoted

namespace FlowRecovery

/-- A form with its fields. -/
def describeForm (form : String) (fields : List (String × String)) : String :=
  form ++ " \x7b " ++ ", ".intercalate (fields.map fun (name, text) => name ++ ": " ++ text) ++ " \x7d"

/-- A number inside a message. -/
def describeNat (n : Nat) : String := Text.decimal n

/-- An optional value inside a message. -/
def describeOption {α : Type} (f : α → String) : Option α → String
  | none => "None"
  | some a => "Some(" ++ f a ++ ")"

/-- A list inside a message. -/
def describeList {α : Type} (f : α → String) (l : List α) : String :=
  "[" ++ ", ".intercalate (l.map f) ++ "]"

namespace Operand

/-- An operand inside a message. -/
def describe : Operand → String
  | .const value => describeForm "Const" [("value", describeNat value.toNat)]
  | .pc value => describeForm "Pc" [("value", describeNat value.toNat)]
  | .temp id => describeForm "Temp" [("id", describeNat id.toNat)]
  | .env => "Env"
  | .dataRef global offset address => describeForm "DataRef"
      [("global", Text.quoted global), ("offset", describeNat offset.toNat),
        ("address", describeNat address.toNat)]
  | .functionRef name address => describeForm "FunctionRef"
      [("name", Text.quoted name), ("address", describeNat address.toNat)]
  | .importRef name slot => describeForm "ImportRef"
      [("name", Text.quoted name), ("slot", describeNat slot.toNat)]

end Operand

/-- A callee inside a message. -/
def Callee.describe : Callee → String
  | .function name address => describeForm "Function"
      [("name", Text.quoted name), ("address", describeNat address.toNat)]
  | .imported wrapper name slot => describeForm "Import"
      [("wrapper", Text.quoted wrapper), ("import", Text.quoted name),
        ("slot", describeNat slot.toNat)]
  | .indirect target => describeForm "Indirect" [("target", target.describe)]

/-- A convention inside a message. -/
def Convention.describe : Convention → String
  | .sysv64 => "SysV64"
  | .ms64 => "Ms64"
  | .cdecl => "Cdecl"

/-- An operation inside a message. -/
def BinOp.describe : BinOp → String
  | .add => "Add"
  | .sub => "Sub"
  | .mul => "Mul"
  | .and => "And"
  | .or => "Or"
  | .xor => "Xor"
  | .shl => "Shl"
  | .shr => "Shr"
  | .sar => "Sar"
  | .eq => "Eq"
  | .ne => "Ne"
  | .ult => "Ult"
  | .slt => "Slt"

/-- A temporary inside a message. -/
def describeTemp (t : Temp) : String := "Temp(" ++ describeNat t.toNat ++ ")"

/-- An instruction inside a message. -/
def Inst.describe : Inst → String
  | .setPc pc => describeForm "SetPc" [("pc", describeNat pc.toNat)]
  | .marker pc => describeForm "InstructionMarker" [("pc", describeNat pc.toNat)]
  | .readReg dst reg => describeForm "ReadReg" [("dst", describeTemp dst), ("reg", Text.quoted reg)]
  | .writeReg reg value => describeForm "WriteReg"
      [("reg", Text.quoted reg), ("value", value.describe)]
  | .binary dst op lhs rhs => describeForm "Binary"
      [("dst", describeTemp dst), ("op", op.describe), ("lhs", lhs.describe), ("rhs", rhs.describe)]
  | .select dst cond ifTrue ifFalse => describeForm "Select"
      [("dst", describeTemp dst), ("cond", cond.describe), ("if_true", ifTrue.describe),
        ("if_false", ifFalse.describe)]
  | .load dst addr size => describeForm "Load"
      [("dst", describeTemp dst), ("addr", addr.describe), ("size", describeNat size.toNat)]
  | .store addr value size => describeForm "Store"
      [("addr", addr.describe), ("value", value.describe), ("size", describeNat size.toNat)]
  | .helper dst name args => describeForm "Helper"
      [("dst", describeOption describeTemp dst), ("name", Text.quoted name),
        ("args", describeList Operand.describe args)]
  | .halt => "Halt"
  | .branch target => describeForm "Branch" [("target", target.describe)]
  | .exit => "Exit"
  | .callMarker target isStatic state => describeForm "CallMarker"
      [("target", target.describe), ("is_static", if isStatic then "true" else "false"),
        ("state", state.describe)]
  | .returnMarker target => describeForm "ReturnMarker" [("target", target.describe)]
  | .jumpMarker target => describeForm "JumpMarker" [("target", target.describe)]
  | .call callee state => describeForm "Call"
      [("callee", callee.describe), ("state", state.describe)]
  | .importCall name library convention => describeForm "ImportCall"
      [("import", Text.quoted name), ("library", describeOption Text.quoted library),
        ("convention", convention.describe)]
  | .jump label => describeForm "Jump" [("label", Text.quoted label)]
  | .condJump cond thenLabel elseLabel => describeForm "CondJump"
      [("cond", cond.describe), ("then_label", Text.quoted thenLabel),
        ("else_label", Text.quoted elseLabel)]
  | .ret => "Return"

end FlowRecovery
