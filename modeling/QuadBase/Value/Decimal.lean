import QuadBase.Value.Positional

/-!
# Fixed-point decimals

A decimal is a signed 128-bit number of units of `10⁻¹⁸`.  Reading drops zeros at the end of the
fraction and then refuses more than eighteen places and magnitudes out of range.  Writing is
canonical: lowest form, no negative zero.

This stands for the decimals of the same library of value types as `Integer`, and the same laws are
stated for it (`Code.ValueTypes.Lawful`).

* `Decimal.text` — the canonical text.
* `Decimal.read?` — the reader, with both limits.
-/

namespace QuadBase.Value

/-- A number of units of `10⁻¹⁸`. -/
structure Decimal where
  units : Int
  deriving DecidableEq

namespace Decimal

/-- The number of decimal places of a unit. -/
def unitPlaces : Nat := 18

/-- Magnitudes from here on are out of range. -/
def magnitudeBound : Nat := Nat.pow 2 127

/-- The decimal with this sign and this magnitude, if it can be expressed in units and is in
range. -/
def ofPositional? (negative : Bool) (d : Positional) : Option Decimal :=
  let units := d.coefficient * Nat.pow 10 (unitPlaces - d.places)
  if d.places ≤ unitPlaces ∧ units < magnitudeBound then
    some ⟨if negative then -units else units⟩
  else none

/-- The magnitude in lowest form. -/
def magnitude (d : Decimal) : Positional :=
  Positional.lowest ⟨d.units.natAbs, unitPlaces⟩

def text (d : Decimal) : List Char :=
  signed (d.units < 0) d.magnitude.text

/-- Without the zeros at its end. -/
def withoutFinalZeros (cs : List Char) : List Char :=
  (cs.reverse.dropWhile (· = '0')).reverse

/-- Digits with an optional point among or around them, at least one digit in all.  Zeros at the end
of the fraction are dropped. -/
def readPoint? (cs : List Char) : Option Positional :=
  let whole := cs.takeWhile Char.isDigit
  match cs.dropWhile Char.isDigit with
  | [] => (readNat? whole).map (⟨·, 0⟩)
  | '.' :: fraction =>
    if whole.isEmpty && fraction.isEmpty then none
    else
      let kept := withoutFinalZeros fraction
      (readNat? ('0' :: whole ++ kept)).map (⟨·, kept.length⟩)
  | _ => none

/-- The decimal that a label stands for. -/
def read? (label : List Char) : Option Decimal :=
  let (negative, rest) := readSign label
  (readPoint? rest).bind (ofPositional? negative)

end Decimal

end QuadBase.Value
