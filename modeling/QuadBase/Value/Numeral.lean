/-!
# Decimal numerals

Natural numbers as digits and back, and the sign in front of a number.  Only the ten ASCII digits
count as digits.

* `readNat?_digits` — reading the digits of a number gives the number.
-/

namespace QuadBase.Value

/-- The decimal digits of `n`, without leading zeros. -/
def digits (n : Nat) : List Char :=
  Nat.toDigits 10 n

/-- The decimal digits of `n`, padded with zeros on the left to `width` digits. -/
def paddedDigits (width n : Nat) : List Char :=
  List.replicate (width - (digits n).length) '0' ++ digits n

/-- The number of decimal digits of `n`. -/
def digitCount (n : Nat) : Nat :=
  (digits n).length

/-- The number that a nonempty row of digits stands for.  Leading zeros are allowed. -/
def readNat? (cs : List Char) : Option Nat :=
  if !cs.isEmpty && cs.all Char.isDigit then some (Nat.ofDigitChars 10 cs 0) else none

/-- Takes the sign off a number: whether it is negative, and the rest.  A plus sign is allowed. -/
def readSign : List Char → Bool × List Char
  | '-' :: rest => (true, rest)
  | '+' :: rest => (false, rest)
  | cs => (false, cs)

/-- Puts a minus sign in front if asked to. -/
def signed (negative : Bool) (cs : List Char) : List Char :=
  if negative then '-' :: cs else cs

theorem digits_ne_nil (n : Nat) : digits n ≠ [] :=
  Nat.toDigits_ne_nil

theorem isDigit_of_mem_digits {n : Nat} {c : Char} (h : c ∈ digits n) : c.isDigit :=
  Nat.isDigit_of_mem_toDigits (by decide) (by decide) h

/-- Reading undoes writing. -/
theorem readNat?_digits (n : Nat) : readNat? (digits n) = some n := by
  have hall : (digits n).all Char.isDigit = true :=
    List.all_eq_true.2 fun _ hc => isDigit_of_mem_digits hc
  have hne : (digits n).isEmpty = false := by
    simp [digits_ne_nil]
  simp only [readNat?, hall, hne, Bool.not_false, Bool.and_self, if_true]
  exact congrArg some Nat.ofDigitChars_ten_toDigits

end QuadBase.Value
