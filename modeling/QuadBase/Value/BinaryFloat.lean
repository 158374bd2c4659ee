import QuadBase.Value.Decimal

/-!
# Binary floating point, exactly

A binary format is given by the widths of its exponent and its fraction.  A word of the format is a
sign and a magnitude, and a finite magnitude is `significand · 2 ^ exponent` with natural
significand, so that everything here is exact integer arithmetic.

Rounding and the conversion between formats are those of the machine.  The reader, and the writer in
`Shortest`, stand for the floats of the same library of value types as `Integer`; their laws are
`Code.FloatLaws`.

* `BinaryFormat.magnitude` — the magnitude behind a word.
* `BinaryFormat.round` — the word nearest to a ratio, ties to the even significand.
* `BinaryFormat.read?` — the word for a numeral, an infinity or not-a-number.
-/

namespace QuadBase.Value

/-- The layout of a binary floating-point word: sign, exponent, fraction, from the top. -/
structure BinaryFormat where
  fractionBits : Nat
  exponentBits : Nat

def binary64 : BinaryFormat := ⟨52, 11⟩

def binary32 : BinaryFormat := ⟨23, 8⟩

/-- A magnitude of a binary format. -/
inductive Magnitude where
  /-- The number `significand · 2 ^ exponent`. -/
  | finite (significand : Nat) (exponent : Int)
  | infinite
  | notANumber
  deriving DecidableEq

/-- `⌊numerator / denominator⌉`, a tie going to the even neighbour. -/
def roundHalfEven (numerator denominator : Nat) : Nat :=
  let quotient := numerator / denominator
  let twice := 2 * (numerator % denominator)
  if twice < denominator ∨ (twice = denominator ∧ quotient % 2 = 0) then quotient else quotient + 1

namespace BinaryFormat

variable (f : BinaryFormat)

/-- The weight of the last bit of the smallest magnitudes, as a power of two. -/
def leastExponent : Int :=
  2 - (Nat.pow 2 (f.exponentBits - 1) : Nat) - (f.fractionBits : Int)

def infinity : Nat :=
  (Nat.pow 2 f.exponentBits - 1) * Nat.pow 2 f.fractionBits

/-- The word of the quiet not-a-number. -/
def quietNaN : Nat :=
  f.infinity + Nat.pow 2 (f.fractionBits - 1)

def signBit : Nat :=
  Nat.pow 2 (f.exponentBits + f.fractionBits)

/-- Whether the sign of a word is set. -/
def isNegative (word : Nat) : Bool :=
  word / f.signBit % 2 = 1

/-- The magnitude of a word, whatever its sign. -/
def magnitude (word : Nat) : Magnitude :=
  let fraction := word % Nat.pow 2 f.fractionBits
  let exponent := word / Nat.pow 2 f.fractionBits % Nat.pow 2 f.exponentBits
  if exponent = Nat.pow 2 f.exponentBits - 1 then
    if fraction = 0 then .infinite else .notANumber
  else if exponent = 0 then .finite fraction f.leastExponent
  else .finite (Nat.pow 2 f.fractionBits + fraction) (f.leastExponent + exponent - 1)

/-- The word of a sign and a magnitude word. -/
def withSign (negative : Bool) (word : Nat) : Nat :=
  if negative then f.signBit + word else word

/-- The greatest `e` with `2 ^ e ≤ numerator / denominator`, for a positive ratio. -/
def floorLog2 (numerator denominator : Nat) : Int :=
  let guess : Int := (numerator.log2 : Int) - denominator.log2
  if denominator * Nat.pow 2 guess.toNat ≤ numerator * Nat.pow 2 (-guess).toNat then guess
  else guess - 1

/-- The magnitude word nearest to a ratio, a tie going to the even significand.  Ratios beyond the
greatest finite magnitude round to infinity, and a zero denominator counts as such. -/
def round (numerator denominator : Nat) : Nat :=
  if numerator = 0 then 0
  else if denominator = 0 then f.infinity
  else
    let unit := max f.leastExponent (floorLog2 numerator denominator - f.fractionBits)
    let significand :=
      roundHalfEven (numerator * Nat.pow 2 (-unit).toNat) (denominator * Nat.pow 2 unit.toNat)
    min f.infinity ((unit - f.leastExponent).toNat * Nat.pow 2 f.fractionBits + significand)

/-- The magnitude word nearest to another magnitude. -/
def ofMagnitude : Magnitude → Nat
  | .finite significand exponent =>
    f.round (significand * Nat.pow 2 exponent.toNat) (Nat.pow 2 (-exponent).toNat)
  | .infinite => f.infinity
  | .notANumber => f.quietNaN

/-- The word of another format, rounded into this one.  Not-a-number stays so. -/
def convert (g : BinaryFormat) (word : Nat) : Nat :=
  f.withSign (g.isNegative word) (f.ofMagnitude (g.magnitude word))

/-- Decimal exponents beyond this are decided without computing the power: they lie far beyond every
finite magnitude of the formats in use. -/
def exponentCap : Int := 5000

/-- The magnitude word nearest to `coefficient · 10 ^ exponent`. -/
def roundDecimal (coefficient : Nat) (exponent : Int) : Nat :=
  let order : Int := digitCount coefficient + exponent
  if coefficient = 0 ∨ order < -exponentCap then 0
  else if exponentCap < order then f.infinity
  else f.round (coefficient * Nat.pow 10 exponent.toNat) (Nat.pow 10 (-exponent).toNat)

/-- The exponent part of a numeral, zero if there is none. -/
def readExponent? : List Char → Option Int
  | [] => some 0
  | c :: rest =>
    if c = 'e' ∨ c = 'E' then
      let (negative, ds) := readSign rest
      (readNat? ds).map fun n => if negative then -n else n
    else none

/-- The magnitude word of an unsigned numeral, with optional point and exponent. -/
def readNumeral? (cs : List Char) : Option Nat := do
  let isMark (c : Char) : Bool := c = 'e' || c = 'E'
  let number ← Decimal.readPoint? (cs.takeWhile fun c => !isMark c)
  let exponent ← readExponent? (cs.dropWhile fun c => !isMark c)
  some (f.roundDecimal number.coefficient (exponent - number.places))

/-- The word of a label: a numeral, `inf`, `infinity` or `nan` in any case, each with an optional
sign. -/
def read? (label : List Char) : Option Nat :=
  let (negative, rest) := readSign label
  let name := rest.map Char.toLower
  let word? :=
    if name = "inf".toList ∨ name = "infinity".toList then some f.infinity
    else if name = "nan".toList then some f.quietNaN
    else f.readNumeral? rest
  word?.map (f.withSign negative)

end BinaryFormat

end QuadBase.Value
