import QuadBase.Value.Numeral

/-!
# Integers

Integer labels are read in the range of 64-bit signed words, with an optional sign, and written as
canonical numerals: no plus sign, no leading zeros, no negative zero.

This is the integer type of a library of value types that packing uses and that is not part of this
project.  What packing relies on is stated once for all value types, with the library as a
parameter, in `Code.ValueTypes.Lawful`; `Code.lawful_valueTypes` says that the readers and writers
here have it.

* `Integer.read?_text` — every integer of the range is read back from its canonical numeral.
-/

namespace QuadBase.Value.Integer

/-- The least integer that is read. -/
def least : Int := -Nat.pow 2 63

def greatest : Int := Nat.pow 2 63 - 1

/-- The integer that a label stands for, if it lies in the range. -/
def read? (label : List Char) : Option Int := do
  let (negative, rest) := readSign label
  let magnitude ← readNat? rest
  let value : Int := if negative then -magnitude else magnitude
  if least ≤ value ∧ value ≤ greatest then some value else none

/-- The canonical numeral of an integer. -/
def text (value : Int) : List Char :=
  signed (value < 0) (digits value.natAbs)

theorem readSign_digits (n : Nat) : readSign (digits n) = (false, digits n) := by
  unfold readSign
  split
  next rest h =>
    have hd : ('-' : Char).isDigit := isDigit_of_mem_digits (n := n) (by simp [h])
    exact absurd hd (by decide)
  next rest h =>
    have hd : ('+' : Char).isDigit := isDigit_of_mem_digits (n := n) (by simp [h])
    exact absurd hd (by decide)
  next => rfl

/-- Reading undoes writing within the range. -/
theorem read?_text {value : Int} (hl : least ≤ value) (hg : value ≤ greatest) :
    read? (text value) = some value := by
  by_cases hneg : value < 0
  · have habs : -(value.natAbs : Int) = value := by omega
    simp only [read?, text, signed, hneg, decide_true, if_true, readSign, readNat?_digits]
    simp only [bind, Option.bind, habs, hl, hg, and_self, if_true]
  · have habs : (value.natAbs : Int) = value := by omega
    simp only [read?, text, signed, hneg, decide_false, Bool.false_eq_true, if_false,
      readSign_digits, readNat?_digits]
    simp only [bind, Option.bind, habs, hl, hg, and_self, if_true]

end QuadBase.Value.Integer
