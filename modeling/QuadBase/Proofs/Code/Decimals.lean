import QuadBase.Proofs.Code.Canonical
import QuadBase.Proofs.Index.Checked
import QuadBase.Proofs.Value.Spelling

/-!
# Packed decimals

A label is packed as a decimal exactly if it is a canonical decimal whose fraction and whose
unscaled value are short enough (`pack?_decimal_eq_some_iff`).

The program does this on texts and machine words.  It takes the canonical text apart again, adds the
digits up, and shifts the parts into a payload; the other way it writes the digits of the unscaled
value and inserts the zeros, the point and the sign that belong there.  `checkedPackDecimal` and
`checkedUnpackDecimal` take these very steps, and report a `Mishap` as soon as a word is out of
range, a count would fall below zero or a character would be inserted outside a text.

* `checkedDigits_eq` — **the digits add up to less than a word**, as the loop stops early.
* `checkedPointed_eq` — **zeros and point are inserted where they belong.**
* `checkedPackDecimal_eq`, `checkedUnpackDecimal_eq` — the steps have no mishap, and in the end the
  results of packing and unpacking.
-/

namespace QuadBase.Code.Family

open QuadBase.Value QuadBase.Index

variable {payload : Nat} {label : String}

/-! ## Which labels are packed -/

/-- What is unpacked from a payload whose decimal cannot be shortened. -/
lemma unpack?_decimal_eq_some_iff (hlt : payload < payloadBound)
    (hcanonical : CanonicalDecimal payload) :
    decimal.unpack? payload = some label.toList ↔ placesBias ≤ payload / decimalFactor ∧
      Decimal.IsCanonical label.toList (unscaled payload) (places payload) := by
  have htext : Decimal.text ⟨unscaled payload *
      (10 ^ (Decimal.unitPlaces - places payload) : Nat)⟩ =
      signed (unscaled payload < 0)
        (Positional.text ⟨(unscaled payload).natAbs, places payload⟩) := by
    rw [Decimal.text, magnitude_scaled _ ((places_le hlt).trans (by decide)),
      Positional.lowest_of_isLowest hcanonical.1]
    simp only [scaled_neg_iff]
  rw [Decimal.isCanonical_iff, and_iff_right hcanonical.1, unpack?, Option.map_eq_some_iff]
  simp only [unpackDecimal?_eq_some_iff hlt]
  constructor
  · rintro ⟨value, ⟨hbias, rfl⟩, hlabel⟩
    exact ⟨hbias, by rw [← hlabel, htext]⟩
  · rintro ⟨hbias, hlabel⟩
    exact ⟨_, ⟨hbias, rfl⟩, by rw [htext, hlabel]⟩

/-- A label is packed exactly if it is the canonical spelling of a decimal that fits. -/
lemma pack?_decimal_eq_some_iff :
    decimal.pack? label = some payload ↔
      payload < payloadBound ∧ placesBias ≤ payload / decimalFactor ∧
        (unscaled payload).natAbs < decimalBias ∧
        Decimal.IsCanonical label.toList (unscaled payload) (places payload) := by
  rw [pack?_eq_some_iff_canonical]
  refine and_congr_right fun hlt => ?_
  constructor
  · rintro ⟨hcanonical, hunpack⟩
    obtain ⟨hbias, hlabel⟩ := (unpack?_decimal_eq_some_iff hlt hcanonical).1 hunpack
    exact ⟨hbias, hcanonical.2, hlabel⟩
  · rintro ⟨hbias, hunscaled, hlabel⟩
    have hcanonical : CanonicalDecimal payload :=
      ⟨(Decimal.isCanonical_iff.1 hlabel).1, hunscaled⟩
    exact ⟨hcanonical, (unpack?_decimal_eq_some_iff hlt hcanonical).2 ⟨hbias, hlabel⟩⟩

/-! ## Words and texts -/

/-- A result of signed arithmetic with 64 bits. -/
def signedWord (n : Int) : Checked Int := do
  ensure (-2 ^ 63 ≤ n ∧ n < 2 ^ 63) .overflow
  return n

/-- A result of unsigned arithmetic with 32 bits. -/
def unsignedWord (n : Nat) : Checked Nat := do
  ensure (n < wordBound) .overflow
  return n

/-- How many more `m` is than `n`, which must not be below zero. -/
def difference (m n : Nat) : Checked Nat := do
  ensure (n ≤ m) .underflow
  return m - n

/-- Inserts a character at a position, which must not be behind the end of the text. -/
def inserted (c : Char) (position : Nat) (cs : List Char) : Checked (List Char) := do
  ensure (position ≤ cs.length) .underflow
  return cs.take position ++ c :: cs.drop position

/-- The unsigned word of 32 bits with this value, if there is one. -/
def toUnsigned? (n : Int) : Option Nat :=
  if 0 ≤ n ∧ n < wordBound then some n.toNat else none

lemma signedWord_eq_ok {n : Int} (h : -2 ^ 63 ≤ n ∧ n < 2 ^ 63) : signedWord n = .ok n := by
  rw [signedWord, ensure_eq_ok h]
  rfl

lemma unsignedWord_eq_ok {n : Nat} (h : n < wordBound) : unsignedWord n = .ok n := by
  rw [unsignedWord, ensure_eq_ok h]
  rfl

lemma difference_eq_ok {m n : Nat} (h : n ≤ m) : difference m n = .ok (m - n) := by
  rw [difference, ensure_eq_ok h]
  rfl

lemma inserted_eq_ok {c : Char} {position : Nat} {cs : List Char} (h : position ≤ cs.length) :
    inserted c position cs = .ok (cs.take position ++ c :: cs.drop position) := by
  rw [inserted, ensure_eq_ok h]
  rfl

lemma toUnsigned?_eq_some {n : Int} (h : 0 ≤ n ∧ n < wordBound) :
    toUnsigned? n = some n.toNat :=
  if_pos h

/-! ## Unpacking, step by step -/

/-- The digits of a number with zeros in front, so that one is left before the point. -/
def checkedPadded (places n : Nat) : Checked (List Char) :=
  if (digits n).length ≤ places then do
    let zeros ← difference (places + 1) (digits n).length
    return List.replicate zeros '0' ++ digits n
  else return digits n

/-- The digits of a number with the point among them. -/
def checkedPointed (places n : Nat) : Checked (List Char) :=
  if 0 < places then do
    let padded ← checkedPadded places n
    let position ← difference padded.length places
    inserted '.' position padded
  else return digits n

/-- The digits of an unscaled value with point and sign. -/
def checkedNumeral (places : Nat) (unscaled : Int) : Checked (List Char) := do
  let pointed ← checkedPointed places unscaled.natAbs
  if unscaled < 0 then inserted '-' 0 pointed else return pointed

/-- Unpacks a decimal.  Where the upper bits are below their bias there is none, so this is asked
before they are decreased.  What was written is read once more for its canonical text. -/
def checkedUnpackDecimal (payload : Nat) : Checked (Option (List Char)) :=
  if payload >>> 19 < placesBias then return none
  else do
    let places ← difference (payload >>> 19) placesBias
    if maxPlaces < places then return none
    else do
      let unscaled ← signedWord ((payload &&& (2 ^ 19 - 1) : Nat) - (decimalBias : Int))
      let numeral ← checkedNumeral places unscaled
      return (Decimal.read? numeral).map Decimal.text

lemma checkedPadded_eq (places n : Nat) :
    checkedPadded places n = .ok (paddedDigits (places + 1) n) := by
  rw [checkedPadded]
  split
  next h =>
    rw [difference_eq_ok (Nat.le_succ_of_le h), ok_bind]
    rfl
  next h =>
    rw [paddedDigits_of_le (Nat.not_le.1 h)]
    rfl

/-- **Zeros and point are inserted where they belong.** -/
lemma checkedPointed_eq (places n : Nat) :
    checkedPointed places n = .ok (Positional.text ⟨n, places⟩) := by
  have hlength := length_paddedDigits (places + 1) n
  rw [checkedPointed]
  split
  next hpos =>
    rw [checkedPadded_eq, ok_bind, difference_eq_ok (by omega), ok_bind,
      inserted_eq_ok (Nat.sub_le _ _), Positional.text]
    have hfraction : ((paddedDigits (places + 1) n).drop
        ((paddedDigits (places + 1) n).length - places)).isEmpty = false := by
      rw [List.isEmpty_eq_false_iff, ← List.length_pos_iff, List.length_drop]
      omega
    simp only [hfraction, Bool.false_eq_true, if_false]
  next hzero =>
    rcases Positional.text_cases ⟨n, places⟩ with ⟨-, htext⟩ | ⟨-, -, hpos, -⟩
    · rw [htext]
      rfl
    · exact absurd hpos hzero

lemma checkedNumeral_eq (places : Nat) (n : Int) :
    checkedNumeral places n = .ok (signed (n < 0) (Positional.text ⟨n.natAbs, places⟩)) := by
  rw [checkedNumeral, checkedPointed_eq, ok_bind, signed]
  simp only [decide_eq_true_eq]
  split
  next => rw [inserted_eq_ok (Nat.zero_le _), List.take_zero, List.drop_zero, List.nil_append]
  next => rfl

/-- Reading finds the decimal behind its unscaled value, however many zeros end the fraction. -/
lemma read?_signed_text {n : Int} {k : Nat} (hk : k ≤ Decimal.unitPlaces)
    (hn : n.natAbs * 10 ^ (Decimal.unitPlaces - k) < Decimal.magnitudeBound) :
    Decimal.read? (signed (n < 0) (Positional.text ⟨n.natAbs, k⟩)) =
      some ⟨n * (10 ^ (Decimal.unitPlaces - k) : Nat)⟩ := by
  have hplaces : (Positional.lowest ⟨n.natAbs, k⟩).places ≤ k := Positional.lowest_places_le _
  have hunits : (Positional.lowest ⟨n.natAbs, k⟩).coefficient *
      10 ^ (Decimal.unitPlaces - (Positional.lowest ⟨n.natAbs, k⟩).places) =
        n.natAbs * 10 ^ (Decimal.unitPlaces - k) := by
    have hsplit : Decimal.unitPlaces - (Positional.lowest ⟨n.natAbs, k⟩).places =
        (k - (Positional.lowest ⟨n.natAbs, k⟩).places) + (Decimal.unitPlaces - k) := by omega
    rw [hsplit, Nat.pow_add, ← Nat.mul_assoc, Positional.lowest_coefficient]
  rw [Decimal.read?, readSign_signed (Positional.isNumeral_text _)]
  dsimp only
  rw [Positional.readPoint?_text_eq_lowest, Option.bind_some, Decimal.ofPositional?]
  simp only [Nat.pow_eq, hunits]
  rw [if_pos ⟨hplaces.trans hk, hn⟩, Option.some.injEq, Decimal.mk.injEq, Int.natCast_mul]
  split
  next hneg =>
    have hn : ((n.natAbs : Nat) : Int) = -n := by
      have := of_decide_eq_true hneg
      omega
    rw [hn, Int.neg_mul, Int.neg_neg]
  next hneg =>
    have hn : ((n.natAbs : Nat) : Int) = n := by
      have : ¬ n < 0 := by simpa using hneg
      omega
    rw [hn]

/-- **Unpacking has no mishap.** -/
lemma checkedUnpackDecimal_eq (hlt : payload < payloadBound) :
    checkedUnpackDecimal payload = .ok (decimal.unpack? payload) := by
  have hquotient : payload >>> 19 = payload / decimalFactor := Nat.shiftRight_eq_div_pow _ _
  have hremainder : payload &&& (2 ^ 19 - 1) = payload % decimalFactor :=
    Nat.and_two_pow_sub_one_eq_mod _ _
  have hbounds := unscaled_bounds payload
  have hbias : decimalBias = 2 ^ 18 := rfl
  rw [checkedUnpackDecimal, hquotient, hremainder, unpack?]
  split
  next h =>
    have hnone : unpackDecimal? payload = none := if_neg fun hrange => by omega
    rw [hnone]
    rfl
  next h =>
    have hplaces : payload / decimalFactor - placesBias ≤ maxPlaces := places_le hlt
    have hscaled := natAbs_scaled_lt payload (places payload)
    rw [Int.natAbs_mul, Int.natAbs_natCast] at hscaled
    have hread := read?_signed_text ((places_le hlt).trans (by decide)) hscaled
    have hvalue := (unpackDecimal?_eq_some_iff hlt).2 ⟨Nat.not_lt.1 h, rfl⟩
    rw [difference_eq_ok (Nat.not_lt.1 h), ok_bind, if_neg (Nat.not_lt.2 hplaces),
      signedWord_eq_ok (by rw [← unscaled]; omega), ok_bind, ← unscaled, ← places,
      checkedNumeral_eq, ok_bind, hread, hvalue]
    rfl

/-! ## Packing, step by step -/

/-- Takes off a minus sign. -/
def stripMinus : List Char → Bool × List Char
  | '-' :: rest => (true, rest)
  | cs => (false, cs)

/-- What is before the first point and what is behind it. -/
def splitPoint (cs : List Char) : List Char × List Char :=
  (cs.takeWhile (· ≠ '.'), (cs.dropWhile (· ≠ '.')).drop 1)

/-- Adds up digits from left to right, and gives up once they are too many. -/
def checkedDigits (sum : Int) : List Char → Checked (Option Int)
  | [] => return some sum
  | c :: cs =>
    if c.isDigit then do
      let tenfold ← signedWord (sum * 10)
      let next ← signedWord (tenfold + (c.toNat - '0'.toNat : Nat))
      if decimalBias ≤ next then return none else checkedDigits next cs
    else return none

/-- Puts a minus sign before a word if asked to. -/
def negated (negative : Bool) (n : Int) : Checked Int :=
  if negative then signedWord (-n) else return n

/-- Puts the number of places and the unscaled value into a payload. -/
def checkedParts (negative : Bool) (places : Nat) (sum : Int) : Checked (Option Nat) := do
  let unscaled ← negated negative sum
  let biased ← signedWord (unscaled + decimalBias)
  match toUnsigned? places, toUnsigned? biased with
  | some upper, some lower => do
    let upper ← unsignedWord (upper + placesBias)
    let shifted ← unsignedWord (upper <<< 19)
    return some (shifted ||| lower)
  | _, _ => return none

/-- The payload of a decimal, from a canonical text. -/
def checkedTextPayload (text : List Char) : Checked (Option Nat) :=
  let (negative, numeral) := stripMinus text
  let (whole, fraction) := splitPoint numeral
  if maxPlaces < fraction.length then return none
  else do
    match ← checkedDigits 0 (whole ++ fraction) with
    | some sum => checkedParts negative fraction.length sum
    | none => return none

/-- The payload of a decimal, from its canonical text. -/
def checkedDecimalPayload (value : Decimal) : Checked (Option Nat) :=
  checkedTextPayload value.text

/-- Packs a label as a decimal.  What is packed must be unpacked again. -/
def checkedPackDecimal (label : String) : Checked (Option Nat) :=
  match Decimal.read? label.toList with
  | some value => do
    match ← checkedDecimalPayload value with
    | some payload => do
      let unpacked ← checkedUnpackDecimal payload
      return if unpacked = some label.toList then some payload else none
    | none => return none
  | none => return none

lemma stripMinus_signed {cs : List Char} (h : Positional.IsNumeral cs) (negative : Bool) :
    stripMinus (signed negative cs) = (negative, cs) := by
  obtain ⟨first, rest, rfl, hfirst⟩ := h.exists_cons
  have hne : first ≠ '-' := by
    rintro rfl
    cases hfirst
  cases negative with
  | true => rfl
  | false =>
    rw [signed, if_neg Bool.false_ne_true, stripMinus]
    exact fun rest heq => hne (List.cons.inj heq).1

/-- Digits have no point among them. -/
lemma ne_point_of_isDigit {c : Char} (h : c.isDigit = true) : decide (c ≠ '.') = true := by
  rw [decide_eq_true_eq]
  rintro rfl
  cases h

/-- The digits before and behind the point add up to the coefficient. -/
lemma splitPoint_text (d : Positional) :
    ∃ whole fraction, splitPoint d.text = (whole, fraction) ∧ fraction.length = d.places ∧
      (∀ c ∈ whole ++ fraction, c.isDigit = true) ∧
      Nat.ofDigitChars 10 (whole ++ fraction) 0 = d.coefficient := by
  rcases d.text_cases with ⟨hzero, htext⟩ | ⟨whole, fraction, -, -, hlength, hdigits, htext⟩
  · have hdigit : ∀ c ∈ digits d.coefficient, c.isDigit = true := fun c hc =>
      isDigit_of_mem_digits hc
    have hpoint : ∀ c ∈ digits d.coefficient, decide (c ≠ '.') = true := fun c hc =>
      ne_point_of_isDigit (hdigit c hc)
    refine ⟨digits d.coefficient, [], ?_, hzero.symm, by rwa [List.append_nil], ?_⟩
    · rw [htext, splitPoint, List.takeWhile_eq_self_iff.2 hpoint,
        List.dropWhile_eq_nil_iff.2 hpoint]
      rfl
    · rw [List.append_nil]
      exact Nat.ofDigitChars_ten_toDigits
  · have hdigit : ∀ c ∈ whole ++ fraction, c.isDigit = true := fun c hc =>
      isDigit_of_mem_paddedDigits (hdigits ▸ hc)
    have hpoint : ∀ c ∈ whole, decide (c ≠ '.') = true := fun c hc =>
      ne_point_of_isDigit (hdigit c (List.mem_append_left _ hc))
    refine ⟨whole, fraction, ?_, hlength, hdigit, ?_⟩
    · rw [htext, splitPoint, List.takeWhile_append_of_pos hpoint,
        List.dropWhile_append_of_pos hpoint, List.takeWhile_cons_of_neg (by decide),
        List.dropWhile_cons_of_neg (by decide), List.append_nil, List.drop_one, List.tail_cons]
    · rw [hdigits, ofDigitChars_paddedDigits]

lemma le_ofDigitChars (cs : List Char) (n : Nat) : n ≤ Nat.ofDigitChars 10 cs n := by
  rw [Nat.ofDigitChars_eq_ofDigitChars_zero]
  exact Nat.le_add_right_of_le (Nat.le_mul_of_pos_left _ (Nat.pow_pos (by decide)))

/-- **The digits add up to less than a word**: the loop stops before they can get out of range.
They are never too many again, as the sum only grows. -/
lemma checkedDigits_eq {cs : List Char} (h : ∀ c ∈ cs, c.isDigit = true) {n : Nat}
    (hn : n < decimalBias) :
    checkedDigits n cs = .ok (if Nat.ofDigitChars 10 cs n < decimalBias then
      some ((Nat.ofDigitChars 10 cs n : Nat) : Int) else none) := by
  induction cs generalizing n with
  | nil =>
    rw [checkedDigits, Nat.ofDigitChars_nil, if_pos hn]
    rfl
  | cons c cs ih =>
    have hc := h c List.mem_cons_self
    have hdigit := toNat_sub_lt hc
    have hbias : decimalBias = 2 ^ 18 := rfl
    have hnext : (n : Int) * 10 + (c.toNat - '0'.toNat : Nat) =
        ((10 * n + (c.toNat - '0'.toNat) : Nat) : Int) := by omega
    have hle := le_ofDigitChars cs (10 * n + (c.toNat - '0'.toNat))
    -- between two steps the sum is below 2 ^ 18, so no step comes near 2 ^ 63
    rw [checkedDigits, if_pos hc, signedWord_eq_ok (by omega), ok_bind,
      signedWord_eq_ok (by omega), ok_bind, hnext, Nat.ofDigitChars_cons]
    split
    next hmany =>
      rw [if_neg (by omega)]
      rfl
    next hfew => exact ih (fun d hd => h d (List.mem_cons_of_mem c hd)) (by omega)

lemma checkedParts_eq {negative : Bool} {k n : Nat} (hk : k ≤ maxPlaces) (hn : n < decimalBias) :
    checkedParts negative k n = .ok (some ((k + placesBias) * decimalFactor +
      ((if negative then -(n : Int) else n) + decimalBias).toNat)) := by
  have hbias : decimalBias = 2 ^ 18 := rfl
  have hmax : maxPlaces = 15 := rfl
  have hplaces : placesBias = 16 := rfl
  have hword : wordBound = 2 ^ 32 := rfl
  have hsigned : negated negative n = .ok (if negative then -(n : Int) else n) := by
    rw [negated]
    split
    next => exact signedWord_eq_ok (by omega)
    next => rfl
  have hrange : -(2 ^ 18 : Int) < (if negative then -(n : Int) else n) ∧
      (if negative then -(n : Int) else n) < 2 ^ 18 := by
    split <;> omega
  rw [checkedParts, hsigned, ok_bind]
  generalize (if negative then -(n : Int) else n) = unscaled at hrange
  have hlower : (unscaled + decimalBias).toNat < 2 ^ 19 := by omega
  rw [signedWord_eq_ok (by omega), ok_bind, toUnsigned?_eq_some (by omega),
    toUnsigned?_eq_some (by omega)]
  dsimp only
  rw [Int.toNat_natCast, unsignedWord_eq_ok (by omega), ok_bind, Nat.shiftLeft_eq,
    unsignedWord_eq_ok (by omega), ok_bind, Nat.mul_comm, ← Nat.two_pow_add_eq_or_of_lt hlower,
    Nat.mul_comm]
  rfl

lemma checkedDecimalPayload_eq (value : Decimal) :
    checkedDecimalPayload value = .ok (decimalPayload? value) := by
  obtain ⟨whole, fraction, hsplit, hplaces, hdigits, hcoefficient⟩ := splitPoint_text value.magnitude
  have hsum := checkedDigits_eq hdigits (n := 0) (by decide)
  rw [hcoefficient, Int.natCast_zero] at hsum
  rw [checkedDecimalPayload, checkedTextPayload, Decimal.text,
    stripMinus_signed (Positional.isNumeral_text _), decimalPayload?]
  dsimp only
  rw [hsplit, hplaces]
  dsimp only
  split
  next hmany =>
    rw [if_neg fun hfits => Nat.not_lt.2 hfits.1 hmany]
    rfl
  next hfew =>
    rw [hsum, ok_bind]
    split
    next sum hsome =>
      split at hsome
      next hlt =>
        obtain rfl := Option.some.inj hsome
        rw [if_pos ⟨Nat.not_lt.1 hfew, hlt⟩, checkedParts_eq (Nat.not_lt.1 hfew) hlt]
        simp only [decide_eq_true_eq]
      next => cases hsome
    next hnone =>
      split at hnone
      next => cases hnone
      next hge =>
        rw [if_neg fun hfits => hge hfits.2]
        rfl

/-- No label that is too long for the work to be done would have been packed. -/
lemma pack?_decimal_eq_filter (label : String) :
    decimal.pack? label = (decimal.payload? label.toList).filter fun payload =>
      decimal.unpack? payload == some label.toList := by
  rw [pack?]
  split
  next => rfl
  next hlong =>
    symm
    rw [Option.filter_eq_none_iff]
    intro payload hpayload hunpack
    exact hlong (length_decimal (payload?_lt hpayload) (eq_of_beq hunpack))

/-- **Packing has no mishap.** -/
lemma checkedPackDecimal_eq (label : String) :
    checkedPackDecimal label = .ok (decimal.pack? label) := by
  rw [checkedPackDecimal, pack?_decimal_eq_filter, payload?]
  cases Decimal.read? label.toList with
  | none => rfl
  | some value =>
    dsimp only [Option.bind_some]
    rw [checkedDecimalPayload_eq, ok_bind]
    cases hpayload : decimalPayload? value with
    | none => rfl
    | some payload =>
      dsimp only
      rw [checkedUnpackDecimal_eq (decimalPayload?_lt hpayload), ok_bind, Option.filter_some]
      simp only [beq_iff_eq]
      rfl

/-- **Decimals with at most fifteen places and an unscaled value of less than eighteen bits are
packed by their canonical spellings, and no other label is.**  The payload holds places and unscaled
value side by side, the label is unpacked from it again, and on the way there and back no step has a
mishap. -/
theorem decimal_labels (label : String) (payload : Fin payloadBound) :
    (∀ p, decimal.pack? label = some p ↔
      ∃ (unscaled : Int) (places : Nat), Decimal.IsCanonical label.toList unscaled places ∧
        places ≤ 15 ∧ unscaled.natAbs < 2 ^ 18 ∧
        (p : Int) = (places + 16) * 2 ^ 19 + (unscaled + 2 ^ 18)) ∧
    (∀ p, decimal.pack? label = some p →
      p < 2 ^ 24 ∧ decimal.unpack? p = some label.toList) ∧
    checkedPackDecimal label = .ok (decimal.pack? label) ∧
    checkedUnpackDecimal payload = .ok (decimal.unpack? payload) := by
  have hbias : decimalBias = 2 ^ 18 := rfl
  have hfactor : decimalFactor = 2 ^ 19 := rfl
  have hshift : placesBias = 16 := rfl
  have hmax : maxPlaces = 15 := rfl
  have hbound : payloadBound = 2 ^ 24 := rfl
  refine ⟨fun p => ?_, fun p h => ⟨(pack?_decimal_eq_some_iff.1 h).1, unpack?_of_pack? h⟩,
    checkedPackDecimal_eq label, checkedUnpackDecimal_eq payload.isLt⟩
  rw [pack?_decimal_eq_some_iff]
  constructor
  · rintro ⟨hlt, hplaces, hunscaled, hlabel⟩
    have hparts := eq_of_places_unscaled hplaces
    rw [hshift, hfactor] at hparts
    have hleast := unscaled_bounds p
    exact ⟨unscaled p, places p, hlabel, places_le hlt, hunscaled, by omega⟩
  · rintro ⟨n, k, hlabel, hk, hn, hp⟩
    have hparts : (k + placesBias) * decimalFactor + (n + decimalBias).toNat = p := by
      rw [hshift, hfactor]
      omega
    obtain ⟨rfl, rfl⟩ := places_unscaled_of_eq hn hparts
    refine ⟨by omega, ?_, hn, hlabel⟩
    rw [hshift, hfactor]
    omega

/-- The zeros that pad the digits do not count. -/
example : decimal.pack? "-0.05" = some ((2 + 16) * 2 ^ 19 + (2 ^ 18 - 5)) := by decide

end QuadBase.Code.Family
