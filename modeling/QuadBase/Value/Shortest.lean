import QuadBase.Value.BinaryFloat

/-!
# Shortest decimal text of a binary float

A positive finite magnitude is rounded to from a whole interval of reals, its ends included exactly
if the significand is even.  The text of the magnitude is the decimal with the fewest digits inside
that interval, and of those the nearest to the magnitude.  A tie goes up.  That the search below
finds this text is proved without it: `BinaryFormat.isText_iff`.

For a given number of digits it is enough to look at the two neighbours of the magnitude on the grid
of decimals with that many digits: if any point of the grid lies in the interval, one of them
does.

* `Interval.digits?` — the better neighbour on one grid.
* `BinaryFormat.text` — the text of a word.
* `Interval.contains_of_digits?` — a chosen decimal reads back as the magnitude.
-/

namespace QuadBase.Value

/-- A magnitude with the reals that round to it, all over one denominator. -/
structure Interval where
  low : Nat
  value : Nat
  high : Nat
  denominator : Nat
  /-- Whether the ends belong to the interval. -/
  closed : Bool

namespace Interval

/-- The reals that round to `significand · 2 ^ exponent`.  Below a power of two the neighbouring
magnitude is only half as far away. -/
def ofFinite (f : BinaryFormat) (significand : Nat) (exponent : Int) : Interval :=
  let scale := Nat.pow 2 exponent.toNat
  let halfBelow :=
    if significand = Nat.pow 2 f.fractionBits ∧ f.leastExponent < exponent then 1 else 2
  { low := (4 * significand - halfBelow) * scale
    value := 4 * significand * scale
    high := (4 * significand + 2) * scale
    denominator := 4 * Nat.pow 2 (-exponent).toNat
    closed := significand % 2 = 0 }

/-- The same interval for the `10 ^ -exponent`-fold numbers. -/
def rescale (i : Interval) (exponent : Int) : Interval :=
  let up := Nat.pow 10 (-exponent).toNat
  { i with
    low := i.low * up
    value := i.value * up
    high := i.high * up
    denominator := i.denominator * Nat.pow 10 exponent.toNat }

/-- Whether the natural number `n` lies in the interval. -/
def contains (i : Interval) (n : Nat) : Bool :=
  let x := n * i.denominator
  if i.closed then i.low ≤ x && x ≤ i.high else i.low < x && x < i.high

/-- The least `p` with `value < 10 ^ p`, for a positive value. -/
def order (i : Interval) : Int :=
  if i.denominator ≤ i.value then digitCount (i.value / i.denominator)
  else 1 - digitCount ((i.denominator + i.value - 1) / i.value - 1)

/-- The natural number in the interval that is nearest to the value, if one of the two neighbours of
the value is inside.  A tie goes up. -/
def nearest? (i : Interval) : Option Nat :=
  let below := i.value / i.denominator
  let rest := i.value % i.denominator
  if i.contains (below + 1) && (!i.contains below || i.denominator ≤ 2 * rest) then
    some (below + 1)
  else if i.contains below then some below
  else none

/-- The multiple of `10 ^ exponent` that stands for the value, with its power of ten. -/
def digits? (i : Interval) (exponent : Int) : Option (Nat × Int) :=
  (i.rescale exponent).nearest?.map (·, exponent)

/-- The greatest number of digits that a 64-bit float can need. -/
def maxDigits : Nat := 17

/-- The decimal with the fewest digits that stands for the value. -/
def shortest? (i : Interval) : Option (Nat × Int) :=
  let order := i.order
  ((List.range maxDigits).map (· + 1)).findSome? fun count : Nat => i.digits? (order - count)

theorem contains_of_nearest? {i : Interval} {n : Nat} (h : i.nearest? = some n) :
    i.contains n := by
  simp only [nearest?] at h
  split at h
  next hup =>
    obtain rfl := Option.some.inj h
    exact (Bool.and_eq_true_iff.1 hup).1
  next =>
    split at h
    next hdown =>
      obtain rfl := Option.some.inj h
      exact hdown
    next => cases h

/-- **A chosen decimal reads back**: it lies in the interval of the magnitude. -/
theorem contains_of_digits? {i : Interval} {grid exponent : Int} {n : Nat}
    (h : i.digits? grid = some (n, exponent)) : (i.rescale exponent).contains n := by
  obtain ⟨m, hm, hpair⟩ := Option.map_eq_some_iff.1 h
  obtain ⟨rfl, rfl⟩ := Prod.mk.inj hpair
  exact contains_of_nearest? hm

end Interval

/-- `coefficient · 10 ^ exponent` as a decimal in lowest form. -/
def Positional.ofScaled (coefficient : Nat) (exponent : Int) : Positional :=
  Positional.lowest ⟨coefficient * Nat.pow 10 exponent.toNat, (-exponent).toNat⟩

/-- The text of a magnitude: positional without exponent, and with names for what is not finite. -/
def Magnitude.text (f : BinaryFormat) : Magnitude → List Char
  | .finite significand exponent =>
    match (Interval.ofFinite f significand exponent).shortest? with
    | some (coefficient, power) => (Positional.ofScaled coefficient power).text
    | none => ['0']
  | .infinite => "INF".toList
  | .notANumber => "NaN".toList

/-- The text of a word.  Zero keeps its sign, not-a-number has none. -/
def BinaryFormat.text (f : BinaryFormat) (word : Nat) : List Char :=
  match f.magnitude word with
  | .finite 0 _ => signed (f.isNegative word) ['0']
  | .notANumber => Magnitude.notANumber.text f
  | magnitude => signed (f.isNegative word) (magnitude.text f)

end QuadBase.Value
