/-
What can be wrong with a body, a function or a module.

Every fault names its cause; `VerifyError.message` is the one place where causes
are put into words.
-/
import FlowRecovery.Inst.Describe
import FlowRecovery.Lifted

namespace FlowRecovery

/-- A temporary is defined or read in the wrong place. -/
inductive TempFault where
  | definedTwice (t : Temp)
  | usedBeforeDefinition (t : Temp)
  | outOfRange (t next : Temp)
  deriving DecidableEq, Repr

/-- A body breaks the contract of lifted units. -/
inductive BodyFault where
  | zeroSized
  | empty
  | noOwnMarker
  | markerOutside (pc : Addr)
  | markerOutOfOrder (pc : Addr)
  | earlyExit
  | earlyBranch
  | functionLevel (inst : Inst)
  | noExit
  | temporaries (fault : TempFault)
  /-- A call or return unit has no raw branch to mark. -/
  | noBranch (kind : BlockKind)
  deriving DecidableEq, Repr

/-- A function is malformed. -/
inductive FuncFault where
  | noBlocks
  | duplicateLabel (label : String)
  | emptyBlock (label : String)
  | noTerminator (label : String)
  | terminatorInside (label : String)
  | rawTransfer (label : String)
  | unknownJump (label : String)
  | unknownBranch (label : String)
  | temporaries (fault : TempFault)
  deriving DecidableEq, Repr

/-- An instruction refers to something that the module does not have. -/
inductive ReferenceFault where
  | unresolvedCall (target : Operand)
  | unknownFunction (name : String)
  | unknownWrapper (name : String)
  | offsetPast (offset : Word) (global : String)
  | unknownGlobal (global : String)
  deriving DecidableEq, Repr

/-- The functions of a module do not fit together. -/
inductive ModuleFault where
  | duplicateFunction (name : String)
  | reference (fault : ReferenceFault) (function : String)
  deriving DecidableEq, Repr

/-- A body, a function or a module was refused. -/
inductive VerifyError where
  | block (address : Addr) (fault : BodyFault)
  | function (name : String) (fault : FuncFault)
  | module (fault : ModuleFault)
  deriving DecidableEq, Repr

/-- A temporary inside a message. -/
def Temp.text (t : Temp) : String := "t" ++ Text.decimal t.toNat

/-- The cause in words. -/
def TempFault.message : TempFault → String
  | .definedTwice t => "temporary " ++ Temp.text t ++ " defined twice"
  | .usedBeforeDefinition t => "temporary " ++ Temp.text t ++ " used before definition"
  | .outOfRange t next =>
    "temporary " ++ Temp.text t ++ " out of range (next is " ++ Temp.text next ++ ")"

/-- The cause in words. -/
def BodyFault.message : BodyFault → String
  | .zeroSized => "zero-sized block"
  | .empty => "empty body"
  | .noOwnMarker => "body does not start with its own instruction marker"
  | .markerOutside pc => "marker " ++ Text.addr pc ++ " outside the block"
  | .markerOutOfOrder pc => "marker " ++ Text.addr pc ++ " out of order"
  | .earlyExit => "exit before the end of the body"
  | .earlyBranch => "raw branch is not the final transfer"
  | .functionLevel inst => "unexpected function-level instruction " ++ inst.describe
  | .noExit => "body does not end with an exit"
  | .temporaries fault => fault.message
  | .noBranch kind => kind.name ++ " unit without a raw branch"

/-- The cause in words. -/
def FuncFault.message : FuncFault → String
  | .noBlocks => "no blocks"
  | .duplicateLabel label => "duplicate label " ++ label
  | .emptyBlock label => "block " ++ label ++ " is empty"
  | .noTerminator label => "block " ++ label ++ " has no terminator"
  | .terminatorInside label => "block " ++ label ++ " has a terminator mid-block"
  | .rawTransfer label => "block " ++ label ++ " still has a raw transfer"
  | .unknownJump label => "jump to unknown label " ++ label
  | .unknownBranch label => "branch to unknown label " ++ label
  | .temporaries fault => fault.message

/-- The cause in words. -/
def ReferenceFault.message : ReferenceFault → String
  | .unresolvedCall target => "unresolved call marker to " ++ target.describe
  | .unknownFunction name => "call to unknown function " ++ name
  | .unknownWrapper name => "call to unknown wrapper " ++ name
  | .offsetPast offset global => "offset " ++ Text.addr offset ++ " past " ++ global
  | .unknownGlobal global => "reference to unknown global " ++ global

/-- The cause in words. -/
def ModuleFault.message : ModuleFault → String
  | .duplicateFunction name => "duplicate function " ++ name
  | .reference fault function => fault.message ++ " in function " ++ function

/-- The text of a refusal. -/
def VerifyError.message : VerifyError → String
  | .block address fault => "malformed block at " ++ Text.addr address ++ ": " ++ fault.message
  | .function name fault => "malformed function " ++ name ++ ": " ++ fault.message
  | .module fault => "malformed module: " ++ fault.message

end FlowRecovery
