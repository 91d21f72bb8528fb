/-
Values that are given on the command line.
-/
import FlowRecovery.Failure
import FlowRecovery.Path
import FlowRecovery.Text.Blank
import FlowRecovery.Text.Lower

namespace FlowRecovery

/-- The architecture that a text names, in any case. -/
def Arch.ofText (text : String) : Except ImageError Arch :=
  let name := Text.lower text
  if ["x86_64", "amd64", "x64"].contains name then .ok .x86_64
  else if ["x86", "i386", "i686"].contains name then .ok .x86
  else .error (.unsupportedArch name)

namespace Command

/-- The address that a text gives in hexadecimal behind `0x`, or in decimal. -/
def address? (text : String) : Option Addr :=
  match Text.trim text.toList with
  | '0' :: 'x' :: ds => Text.readWord? 16 ds
  | '0' :: 'X' :: ds => Text.readWord? 16 ds
  | ds => Text.readWord? 10 ds

/-- What is said of a text that gives no address. -/
def invalidAddress (text : String) : String :=
  "Invalid address '" ++ text ++ "': expected 0x-prefixed hex or decimal"

/-- The name of the program in a file. -/
def binaryName (path : String) : String := (Path.fileName? path).getD "unnamed-binary"

variable {m : Type → Type} [Monad m] [Host m]

/-- The absolute path of a file, which need not be there. -/
def absolutePath (path : String) : m String := do
  match ← Host.canonical? path with
  | some found => return found
  | none => return Path.join (← Host.currentDir) path

end Command

end FlowRecovery
