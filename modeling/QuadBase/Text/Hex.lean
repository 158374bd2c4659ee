/-!
# Hexadecimal words

A code is written as a 32-bit word in eight hexadecimal digits, control characters of a label in
four.  `hexWord` writes a number with at least `width` digits.
-/

namespace QuadBase.Text

/-- `n` in lower-case hexadecimal, padded with zeros on the left to `width` digits. -/
def hexDigits (width n : Nat) : List Char :=
  let digits := Nat.toDigits 16 n
  List.replicate (width - digits.length) '0' ++ digits

/-- `n` in lower-case hexadecimal as text. -/
def hexWord (width n : Nat) : String :=
  String.ofList (hexDigits width n)

/-- `n` in upper-case hexadecimal as text. -/
def hexWordUpper (width n : Nat) : String :=
  String.ofList ((hexDigits width n).map Char.toUpper)

end QuadBase.Text
