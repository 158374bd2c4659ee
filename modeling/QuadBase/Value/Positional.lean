import QuadBase.Value.Numeral

/-!
# Positional decimal notation

A finite decimal is a *coefficient* with a number of decimal *places*: `125` with two places is
`1.25`.  It is in lowest form if it has no places or its last digit is not zero.  The notation never
uses an exponent, writes at least one digit before the point, and leaves out a point with nothing
behind it.

* `Positional.lowest_isLowest` — `lowest` reaches the lowest form.
* `Positional.lowest_value` — and keeps the value.
-/

namespace QuadBase.Value

/-- The decimal `coefficient / 10 ^ places`. -/
structure Positional where
  coefficient : Nat
  places : Nat
  deriving DecidableEq

namespace Positional

/-- Drops zeros at the end of the fraction. -/
def dropZeros (coefficient : Nat) : (places : Nat) → Positional
  | 0 => ⟨coefficient, 0⟩
  | places + 1 =>
    if coefficient % 10 = 0 then dropZeros (coefficient / 10) places
    else ⟨coefficient, places + 1⟩

/-- The same decimal with as few places as possible. -/
def lowest (d : Positional) : Positional :=
  dropZeros d.coefficient d.places

/-- Whether no place can be dropped. -/
def IsLowest (d : Positional) : Prop :=
  d.places = 0 ∨ d.coefficient % 10 ≠ 0

/-- The text of a decimal, with exactly `places` digits behind the point. -/
def text (d : Positional) : List Char :=
  let ds := paddedDigits (d.places + 1) d.coefficient
  let whole := ds.take (ds.length - d.places)
  let fraction := ds.drop (ds.length - d.places)
  if fraction.isEmpty then whole else whole ++ '.' :: fraction

theorem dropZeros_isLowest (coefficient places : Nat) :
    (dropZeros coefficient places).IsLowest := by
  induction places generalizing coefficient with
  | zero => exact .inl rfl
  | succ places ih =>
    rw [dropZeros]
    split
    · exact ih _
    next h => exact .inr h

theorem dropZeros_value (coefficient places : Nat) :
    coefficient * Nat.pow 10 (dropZeros coefficient places).places =
      (dropZeros coefficient places).coefficient * Nat.pow 10 places := by
  induction places generalizing coefficient with
  | zero => rfl
  | succ places ih =>
    rw [dropZeros]
    split
    next h =>
      have hten : coefficient = coefficient / 10 * 10 := by omega
      calc
        coefficient * Nat.pow 10 (dropZeros (coefficient / 10) places).places
            = coefficient / 10 * Nat.pow 10 (dropZeros (coefficient / 10) places).places * 10 := by
              rw [Nat.mul_right_comm, ← hten]
        _ = (dropZeros (coefficient / 10) places).coefficient * Nat.pow 10 (places + 1) := by
              rw [ih, Nat.mul_assoc]
              rfl
    next => rfl

/-- The lowest form cannot be lowered. -/
theorem lowest_isLowest (d : Positional) : d.lowest.IsLowest :=
  dropZeros_isLowest d.coefficient d.places

/-- Lowering keeps the value, stated without fractions. -/
theorem lowest_value (d : Positional) :
    d.coefficient * Nat.pow 10 d.lowest.places = d.lowest.coefficient * Nat.pow 10 d.places :=
  dropZeros_value d.coefficient d.places

end Positional

end QuadBase.Value
