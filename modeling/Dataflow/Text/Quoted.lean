import Dataflow.Text.Hex
import Dataflow.Text.Visible
/-!
# Quoted text

A text between double quotes, with everything written out that would not be visible.
-/
namespace Dataflow.Text

/-- How one character is written between the quotes. -/
def quotedChar (c : Char) : String :=
  if c = '"' then "\\\""
  else if c = '\\' then "\\\\"
  else if c = '\n' then "\\n"
  else if c = '\r' then "\\r"
  else if c = '\t' then "\\t"
  else if c = '\x00' then "\\0"
  else if isVisible c then c.toString
  else "\\u\x7b" ++ Hex.text c.toNat ++ "\x7d"

def quoted (s : String) : String :=
  "\"" ++ String.join (s.toList.map quotedChar) ++ "\""

end Dataflow.Text
