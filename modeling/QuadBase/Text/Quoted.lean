import QuadBase.Text.Hidden

/-!
# Quoted text in dumps

A dump shows a text between double quotes.  Quotes and backslashes are escaped, line breaks, tabs
and the zero character have short escapes, and every other character that would not show as itself
is written with its number in braces.

* `quoted` — the text between quotes.
-/

namespace QuadBase.Text

/-- The text that stands for one character of a quoted text. -/
def quotedChar (c : Char) : List Char :=
  if c = '\x00' then ['\\', '0']
  else if c = '\t' then ['\\', 't']
  else if c = '\n' then ['\\', 'n']
  else if c = '\r' then ['\\', 'r']
  else if c = '"' then ['\\', '"']
  else if c = '\\' then ['\\', '\\']
  else if !isHidden c then [c]
  else '\\' :: 'u' :: '\x7b' :: Nat.toDigits 16 c.toNat ++ ['\x7d']

/-- A text between quotes. -/
def quoted (text : String) : String :=
  "\"" ++ String.ofList (text.toList.flatMap quotedChar) ++ "\""

end QuadBase.Text
