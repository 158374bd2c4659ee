import QuadBase.Text.Hex

/-!
# Escaped label text

The label of a literal is written between double quotes.  The six characters that have a short
escape use it, every other control character below the space and the delete character are written
as `\uXXXX`, and the rest stands for itself.
-/

namespace QuadBase.Text

/-- The text that stands for one character of a label. -/
def escapeChar (c : Char) : List Char :=
  if c = '\x08' then ['\\', 'b']
  else if c = '\t' then ['\\', 't']
  else if c = '\n' then ['\\', 'n']
  else if c = '\x0c' then ['\\', 'f']
  else if c = '\r' then ['\\', 'r']
  else if c = '"' then ['\\', '"']
  else if c = '\\' then ['\\', '\\']
  else if c.toNat < 0x20 ∨ c.toNat = 0x7f then
    '\\' :: 'u' :: (hexDigits 4 c.toNat).map Char.toUpper
  else [c]

/-- The text of a label, without the quotes around it. -/
def escape (label : String) : String :=
  String.ofList (label.toList.flatMap escapeChar)

end QuadBase.Text
