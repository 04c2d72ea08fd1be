import StreamCharts.Text.Hexadecimal
import StreamCharts.Text.Visible

/-!
# Quoted text

Messages show a piece of input between double quotes, on one line and without invisible characters. Main definition:
`quoted`.
-/

namespace StreamCharts.Text

/-- A character as it stands between quotes: the usual short escapes, the code point of what is not visible, and all else
as it is. -/
def escaped (c : Char) : List Char :=
  if c = '\x00' then ['\\', '0']
  else if c = '\t' then ['\\', 't']
  else if c = '\r' then ['\\', 'r']
  else if c = '\n' then ['\\', 'n']
  else if c = '"' then ['\\', '"']
  else if c = '\\' then ['\\', '\\']
  else if isVisible c then [c]
  else ['\\', 'u', '\x7b'] ++ hexadecimal c.toNat ++ ['\x7d']

/-- A text between double quotes with its special characters escaped. -/
def quoted (text : String) : String :=
  String.ofList ('"' :: (text.toList.flatMap escaped ++ ['"']))

end StreamCharts.Text
