/-
Text in quotes, as it is shown inside messages.

Quotes and backslashes are escaped, line breaks, tabs and the zero character by
a letter, and everything that is not graphic by its code point in braces.
-/
import FlowRecovery.Text.Digits
import FlowRecovery.Text.Graphic

namespace FlowRecovery.Text

/-- A character inside quotes. -/
def quotedChar (c : Char) : List Char :=
  if c = '"' then ['\\', '"']
  else if c = '\\' then ['\\', '\\']
  else if c = '\n' then ['\\', 'n']
  else if c = '\t' then ['\\', 't']
  else if c = '\r' then ['\\', 'r']
  else if c.toNat = 0 then ['\\', '0']
  else if isGraphic c then [c]
  else ['\\', 'u', '{'] ++ Nat.toDigits 16 c.toNat ++ ['}']

/-- A text in quotes. -/
def quoted (s : String) : String := String.ofList ('"' :: s.toList.flatMap quotedChar ++ ['"'])

end FlowRecovery.Text
