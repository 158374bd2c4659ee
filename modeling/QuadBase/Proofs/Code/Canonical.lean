import QuadBase.Proofs.Code.Packing
import QuadBase.Proofs.Value.Calendar
import QuadBase.Proofs.Value.FloatLabels

/-!
# Canonical payloads

Packing is lossless, but unpacking reads more than packing writes.  A payload is *canonical* if its
label is packed into it again, and there is a separate reason in each layout why a payload may not
be.

* **Decimals** — the unscaled value ends in a zero that is behind the point, or it is the least one,
  whose magnitude has a bit too many.
* **Dates** — the payload spells a month or a day that does not exist.
* **Floats** — the payload is a not-a-number other than the quiet one, or a 32-bit float that had to
  be rounded.

Integers and booleans have no such payloads.  `Family.pack?_iff_canonical` says that this is all.
-/

namespace QuadBase.Code.Family

open QuadBase.Value

variable {payload : Nat} {label : List Char}

/-! ## Integers and booleans -/

lemma integerPayload?_sub (hlt : payload < payloadBound) :
    integerPayload? ((payload : Int) - integerBias) = some payload := by
  rw [integerPayload?, if_pos]
  · rw [Int.sub_add_cancel, Int.toNat_natCast]
  · rw [Int.sub_add_cancel]
    omega

/-- Every payload stands for an integer of the type. -/
lemma integer_in_range (hlt : payload < payloadBound) :
    Integer.least ≤ (payload : Int) - integerBias ∧
      (payload : Int) - integerBias ≤ Integer.greatest := by
  have hbound : payloadBound = 2 ^ 24 := rfl
  have hbias : integerBias = 2 ^ 23 := rfl
  have hleast : Integer.least = -2 ^ 63 := rfl
  have hgreatest : Integer.greatest = 2 ^ 63 - 1 := rfl
  exact ⟨by omega, by omega⟩

/-- Integers are read back from their payloads. -/
lemma payload?_integer (hlt : payload < payloadBound)
    (h : integer.unpack? payload = some label) :
    integer.payload? label = some payload ∧ label.length ≤ maxLabelLength := by
  obtain rfl := Option.some.inj h
  obtain ⟨hleast, hgreatest⟩ := integer_in_range hlt
  have hbound : payloadBound = 2 ^ 24 := rfl
  have hbias : integerBias = 2 ^ 23 := rfl
  have hmax : maxLabelLength = 400 := rfl
  constructor
  · rw [payload?, Integer.read?_text hleast hgreatest, Option.bind_some,
      integerPayload?_sub hlt]
  · have hsigned := length_signed_le ((payload : Int) - integerBias < 0)
      (digits ((payload : Int) - integerBias).natAbs)
    have hcount : digitCount ((payload : Int) - integerBias).natAbs ≤ 8 := by
      rw [digitCount_le_iff (by decide)]
      omega
    rw [digitCount] at hcount
    rw [Integer.text]
    omega

lemma payload?_boolean (h : boolean.unpack? payload = some label) :
    boolean.payload? label = some payload ∧ label.length ≤ maxLabelLength := by
  rw [unpack?] at h
  split at h
  next hzero =>
    subst hzero
    obtain rfl := Option.some.inj h
    decide
  next =>
    split at h
    next hone =>
      subst hone
      obtain rfl := Option.some.inj h
      decide
    next => cases h

/-! ## Decimals -/

/-- The unscaled value of a decimal payload. -/
def unscaled (payload : Nat) : Int :=
  (payload % decimalFactor : Nat) - (decimalBias : Int)

/-- The number of places of a decimal payload. -/
def places (payload : Nat) : Nat :=
  payload / decimalFactor - placesBias

/-- The decimal of the payload cannot be shortened, and its unscaled value is not the least one. -/
def CanonicalDecimal (payload : Nat) : Prop :=
  Positional.IsLowest ⟨(unscaled payload).natAbs, places payload⟩ ∧
    (unscaled payload).natAbs < decimalBias

lemma places_le (hlt : payload < payloadBound) : places payload ≤ maxPlaces := by
  simp only [places, payloadBound, decimalFactor, placesBias, maxPlaces, Nat.pow_eq] at *
  omega

lemma unpackDecimal?_eq_some_iff {value : Decimal} (hlt : payload < payloadBound) :
    unpackDecimal? payload = some value ↔
      placesBias ≤ payload / decimalFactor ∧
        value = ⟨unscaled payload * (10 ^ (Decimal.unitPlaces - places payload) : Nat)⟩ := by
  have hplaces : payload / decimalFactor - placesBias ≤ maxPlaces := places_le hlt
  simp only [unpackDecimal?, hplaces, and_true, unscaled, places, Nat.pow_eq]
  split
  next h => rw [Option.some.injEq, and_iff_right h, eq_comm]
  next h => simp [h]

/-- The magnitude of a decimal behind a payload, without the places that were added. -/
lemma magnitude_scaled (n : Int) {k : Nat} (hk : k ≤ Decimal.unitPlaces) :
    (⟨n * (10 ^ (Decimal.unitPlaces - k) : Nat)⟩ : Decimal).magnitude =
      Positional.lowest ⟨n.natAbs, k⟩ := by
  rw [Decimal.magnitude, Int.natAbs_mul, Int.natAbs_natCast,
    ← Positional.lowest_mul n.natAbs k (Decimal.unitPlaces - k), Nat.add_sub_cancel' hk]

/-- The payload of a decimal is put together from its magnitude and its sign. -/
lemma decimalPayload?_eq_some_iff {value : Decimal} :
    decimalPayload? value = some payload ↔
      value.magnitude.places ≤ maxPlaces ∧ value.magnitude.coefficient < decimalBias ∧
        (value.magnitude.places + placesBias) * decimalFactor +
          ((if value.units < 0 then -(value.magnitude.coefficient : Int)
            else value.magnitude.coefficient) + decimalBias).toNat = payload := by
  rw [decimalPayload?]
  obtain ⟨coefficient, places⟩ := value.magnitude
  dsimp only
  split
  next h => rw [Option.some.injEq, ← and_assoc, and_iff_right h]
  next h => simp [← and_assoc, h]

lemma unscaled_bounds (payload : Nat) : (unscaled payload).natAbs ≤ decimalBias := by
  simp only [unscaled, decimalFactor, decimalBias, Nat.pow_eq]
  omega

/-- Every decimal behind a payload is in range. -/
lemma natAbs_scaled_lt (payload k : Nat) :
    (unscaled payload * (10 ^ (Decimal.unitPlaces - k) : Nat)).natAbs < Decimal.magnitudeBound := by
  rw [Int.natAbs_mul, Int.natAbs_natCast]
  calc (unscaled payload).natAbs * 10 ^ (Decimal.unitPlaces - k)
      ≤ decimalBias * 10 ^ Decimal.unitPlaces :=
        Nat.mul_le_mul (unscaled_bounds payload) (Nat.pow_le_pow_right (by decide) (by omega))
    _ < Decimal.magnitudeBound := by decide

lemma scaled_neg_iff (n : Int) (k : Nat) : n * (10 ^ k : Nat) < 0 ↔ n < 0 := by
  have hpos : (0 : Int) < (10 ^ k : Nat) := by exact_mod_cast Nat.pow_pos (by decide)
  constructor
  · exact fun h => neg_of_mul_neg_left h hpos.le
  · exact fun h => Int.mul_neg_of_neg_of_pos h hpos

/-- The parts of a decimal payload. -/
lemma places_unscaled_of_eq {k : Nat} {n : Int} (hn : n.natAbs < decimalBias)
    (h : (k + placesBias) * decimalFactor + (n + decimalBias).toNat = payload) :
    places payload = k ∧ unscaled payload = n := by
  simp only [places, unscaled, placesBias, decimalFactor, decimalBias, Nat.pow_eq] at *
  omega

lemma eq_of_places_unscaled (hlt : placesBias ≤ payload / decimalFactor) :
    (places payload + placesBias) * decimalFactor + (unscaled payload + decimalBias).toNat =
      payload := by
  simp only [places, unscaled, decimalFactor, Nat.pow_eq] at *
  omega

/-- **Decimals** that cannot be shortened are packed again. -/
lemma payload?_decimal (hlt : payload < payloadBound) (h : decimal.unpack? payload = some label) :
    decimal.payload? label = some payload ↔ CanonicalDecimal payload := by
  obtain ⟨value, hvalue, rfl⟩ := Option.map_eq_some_iff.1 h
  obtain ⟨hbias, rfl⟩ := (unpackDecimal?_eq_some_iff hlt).1 hvalue
  have hplaces := places_le hlt
  have hparts := eq_of_places_unscaled hbias
  have hlowest := Positional.lowest_isLowest ⟨(unscaled payload).natAbs, places payload⟩
  rw [payload?, Decimal.read?_text (natAbs_scaled_lt _ _), Option.bind_some,
    decimalPayload?_eq_some_iff, magnitude_scaled _ (hplaces.trans (by decide)), CanonicalDecimal]
  simp only [scaled_neg_iff]
  constructor
  · rintro ⟨-, hcoefficient, hpayload⟩
    generalize Positional.lowest ⟨(unscaled payload).natAbs, places payload⟩ = d at *
    obtain ⟨hp, hu⟩ := places_unscaled_of_eq (by split <;> omega) hpayload
    have hmagnitude : (unscaled payload).natAbs = d.coefficient := by
      rw [hu]
      split <;> omega
    rw [hp, hmagnitude]
    exact ⟨hlowest, hcoefficient⟩
  · rintro ⟨hcanonical, hmagnitude⟩
    rw [Positional.lowest_of_isLowest hcanonical]
    refine ⟨hplaces, hmagnitude, ?_⟩
    have hsigned : (if unscaled payload < 0 then -((unscaled payload).natAbs : Int)
        else (unscaled payload).natAbs) = unscaled payload := by
      split <;> omega
    rw [hsigned, hparts]

lemma length_decimal (hlt : payload < payloadBound) (h : decimal.unpack? payload = some label) :
    label.length ≤ maxLabelLength := by
  obtain ⟨value, hvalue, rfl⟩ := Option.map_eq_some_iff.1 h
  obtain ⟨-, rfl⟩ := (unpackDecimal?_eq_some_iff hlt).1 hvalue
  exact (Decimal.length_text_le (natAbs_scaled_lt _ _)).trans (by decide)

/-! ## Dates -/

/-- Zero stands for a field that is not there. -/
lemma getD_ite_zero (n : Nat) : (if n = 0 then none else some n : Option Nat).getD 0 = n := by
  split
  next h => exact h.symm
  next => rfl

lemma ite_getD_eq_self {field : Option Nat} (h : ∀ n ∈ field, 1 ≤ n) :
    (if field.getD 0 = 0 then none else some (field.getD 0)) = field := by
  cases field with
  | none => rfl
  | some n => exact if_neg (Nat.ne_of_gt (h n rfl))

/-- The fields of a payload are packed into it again. -/
lemma calendarPayload?_calendarFields (hlt : payload < payloadBound)
    (hreal : (calendarFields payload).Real) :
    calendarPayload? (calendarFields payload) = some payload := by
  have hmonth : payload / 32 % 16 ≤ 12 := by
    rcases Nat.eq_zero_or_pos (payload / 32 % 16) with hzero | hpos
    · omega
    · exact (hreal.month _ (if_neg hpos.ne')).2
  have hbound : payloadBound = 2 ^ 24 := rfl
  have hbias : yearBias = 2 ^ 14 := rfl
  simp only [calendarPayload?, calendarFields, getD_ite_zero]
  rw [if_neg (by omega)]
  split
  next hyear =>
    split at hyear
    next hnone =>
      rw [Option.some.injEq]
      omega
    next => cases hyear
  next year hyear =>
    split at hyear
    next => cases hyear
    next hsome =>
      obtain rfl := Option.some.inj hyear
      rw [if_pos (by omega), Option.some.injEq]
      omega

/-- Fields are found again, unless a month or a day is zero. -/
lemma calendarFields_of_calendarPayload? {fields : CalendarFields}
    (hmonth : ∀ n ∈ fields.month, 1 ≤ n) (hday : ∀ n ∈ fields.day, 1 ≤ n)
    (h : calendarPayload? fields = some payload) : calendarFields payload = fields := by
  obtain ⟨year, month, day⟩ := fields
  replace hmonth := ite_getD_eq_self hmonth
  replace hday := ite_getD_eq_self hday
  have hbias : yearBias = 2 ^ 14 := rfl
  rw [calendarPayload?] at h
  dsimp only at h hmonth hday
  generalize month.getD 0 = monthNumber at *
  generalize day.getD 0 = dayNumber at *
  have hparts : payload % 32 = dayNumber ∧ payload / 32 % 16 = monthNumber ∧
      (if payload / 512 = 0 then none else some ((payload / 512 : Nat) - (yearBias : Int))) =
        year := by
    split at h
    next => cases h
    next hrange =>
      cases year with
      | none =>
        obtain rfl := Option.some.inj h
        exact ⟨by omega, by omega, if_pos (by omega)⟩
      | some year =>
        dsimp only at h
        split at h
        next hyear =>
          obtain rfl := Option.some.inj h
          refine ⟨by omega, by omega, ?_⟩
          rw [if_neg (by omega), Option.some.injEq]
          omega
        next => cases h
  obtain ⟨hd, hm, hy⟩ := hparts
  rw [calendarFields, hd, hm, hmonth, hday]
  simp only [hy]

lemma year_le (hlt : payload < payloadBound) :
    ∀ year ∈ (calendarFields payload).year, (year.natAbs : Int) ≤ Integer.greatest := by
  intro year hyear
  have hbound : payloadBound = 2 ^ 24 := rfl
  have hbias : yearBias = 2 ^ 14 := rfl
  have hgreatest : Integer.greatest = 2 ^ 63 - 1 := rfl
  simp only [calendarFields] at hyear
  split at hyear
  next => cases hyear
  next =>
    obtain rfl := Option.some.inj hyear
    omega

/-- **Dates** that exist are packed again. -/
lemma payload?_calendar {shape : CalendarShape} (hlt : payload < payloadBound)
    (h : (calendar shape).unpack? payload = some label) :
    (calendar shape).payload? label = some payload ↔ (calendarFields payload).Real := by
  constructor
  · intro hpayload
    obtain ⟨⟨fields, zone⟩, hread, hfields⟩ := Option.bind_eq_some_iff.1 hpayload
    have hreal := Calendar.read?_real hread
    cases zone with
    | none =>
      rw [calendarFields_of_calendarPayload? (fun n hn => (hreal.month n hn).1)
        (fun n hn => (hreal.day n hn).1) hfields]
      exact hreal
    | some zone => cases hfields
  · intro hreal
    rw [payload?, Calendar.read?_text? h hreal (year_le hlt), Option.bind_some]
    exact calendarPayload?_calendarFields hlt hreal

lemma length_calendar {shape : CalendarShape} (hlt : payload < payloadBound)
    (hreal : (calendarFields payload).Real) (h : (calendar shape).unpack? payload = some label) :
    label.length ≤ maxLabelLength :=
  (Calendar.length_text?_le h hreal (year_le hlt)).trans (by decide)

/-! ## Floats -/

lemma doublePayload?_eq_some_iff {word : Nat} :
    doublePayload? word = some payload ↔ word = payload * doubleFactor := by
  rw [doublePayload?]
  split
  next h =>
    rw [Option.some.injEq, Nat.div_eq_iff_eq_mul_left (by decide) (Nat.dvd_of_mod_eq_zero h)]
  next h =>
    refine iff_of_false (Option.some_ne_none _).symm ?_
    rintro rfl
    exact h (Nat.mul_mod_left payload doubleFactor)

lemma mul_doubleFactor_lt (hlt : payload < payloadBound) :
    payload * doubleFactor < 2 * binary64.signBit := by
  have hsign : 2 * binary64.signBit = payloadBound * doubleFactor := by decide
  rw [hsign]
  exact Nat.mul_lt_mul_of_pos_right hlt (by decide)

/-- **64-bit floats** are packed again, except for the payloads of not-a-number. -/
lemma payload?_double (hlt : payload < payloadBound) (h : double.unpack? payload = some label) :
    double.payload? label = some payload ↔
      binary64.quieted (payload * doubleFactor) = payload * doubleFactor := by
  obtain rfl := Option.some.inj h
  rw [payload?, BinaryFormat.read?_text BinaryFormat.fits64_binary64 (mul_doubleFactor_lt hlt),
    Option.bind_some, doublePayload?_eq_some_iff]

/-- Narrowing and widening again loses nothing: not even the payload of a not-a-number. -/
lemma convert_quieted_iff (word : Nat) :
    binary64.convert binary32 (binary32.quieted (binary32.convert binary64 word)) = word ↔
      binary64.quieted word = word ∧
        binary64.convert binary32 (binary32.convert binary64 word) = word := by
  by_cases hnan : binary64.magnitude word = .notANumber
  · have hnarrow : binary32.quieted (binary32.convert binary64 word) = binary32.quietNaN := by
      rw [BinaryFormat.convert, hnan, BinaryFormat.ofMagnitude]
      cases binary64.isNegative word with
      | false => decide
      | true => decide
    have hwide : binary64.convert binary32 binary32.quietNaN = binary64.quietNaN := by decide
    have hquiet : binary64.quieted word = binary64.quietNaN := if_pos hnan
    rw [hnarrow, hwide, hquiet]
    refine ⟨?_, And.left⟩
    rintro rfl
    exact ⟨rfl, by decide⟩
  · rw [BinaryFormat.quieted_convert BinaryFormat.fits64_binary32 hnan,
      BinaryFormat.quieted_of_ne hnan, eq_self_iff_true, true_and]

/-- **32-bit floats** are packed again if nothing was lost when they were narrowed. -/
lemma payload?_float (h : float.unpack? payload = some label) :
    float.payload? label = some payload ↔
      binary64.quieted (payload * doubleFactor) = payload * doubleFactor ∧
        binary64.convert binary32 (binary32.convert binary64 (payload * doubleFactor)) =
          payload * doubleFactor := by
  obtain rfl := Option.some.inj h
  rw [payload?, BinaryFormat.read?_text BinaryFormat.fits64_binary32
    (BinaryFormat.convert_lt (by decide) _ _), Option.bind_some, doublePayload?_eq_some_iff,
    convert_quieted_iff]

/-! ## All layouts -/

/-- What makes a payload the one that its label is packed into, layout by layout. -/
def Canonical : Family → Nat → Prop
  | decimal, payload => CanonicalDecimal payload
  | double, payload => binary64.quieted (payload * doubleFactor) = payload * doubleFactor
  | float, payload =>
    binary64.quieted (payload * doubleFactor) = payload * doubleFactor ∧
      binary64.convert binary32 (binary32.convert binary64 (payload * doubleFactor)) =
        payload * doubleFactor
  | calendar _, payload => (calendarFields payload).Real
  | integer, _ | boolean, _ | timeOfDay, _ => True

theorem payload?_iff_canonical {family : Family} (hlt : payload < payloadBound)
    (h : family.unpack? payload = some label) :
    family.payload? label = some payload ↔ family.Canonical payload := by
  cases family with
  | decimal => exact payload?_decimal hlt h
  | integer => exact iff_of_true (payload?_integer hlt h).1 trivial
  | double => exact payload?_double hlt h
  | float => exact payload?_float h
  | boolean => exact iff_of_true (payload?_boolean h).1 trivial
  | calendar shape => exact payload?_calendar hlt h
  | timeOfDay => cases h

/-- Canonical payloads have short labels. -/
lemma length_le_of_canonical {family : Family} (hlt : payload < payloadBound)
    (h : family.unpack? payload = some label) (hcanonical : family.Canonical payload) :
    label.length ≤ maxLabelLength := by
  have hfloat : 377 ≤ maxLabelLength := by decide
  cases family with
  | decimal => exact length_decimal hlt h
  | integer => exact (payload?_integer hlt h).2
  | double =>
    obtain rfl := Option.some.inj h
    exact (BinaryFormat.length_text_le BinaryFormat.fits64_binary64 _).trans hfloat
  | float =>
    obtain rfl := Option.some.inj h
    exact (BinaryFormat.length_text_le BinaryFormat.fits64_binary32 _).trans hfloat
  | boolean => exact (payload?_boolean h).2
  | calendar shape => exact length_calendar hlt hcanonical h
  | timeOfDay => cases h

/-- **A label is packed into the payload that it was unpacked from, exactly if the payload is
canonical.** -/
theorem pack?_iff_canonical {family : Family} (hlt : payload < payloadBound)
    (h : family.unpack? payload = some label) :
    family.pack? (String.ofList label) = some payload ↔ family.Canonical payload := by
  rw [pack?_eq_some_iff, String.toList_ofList, String.length_ofList, payload?_iff_canonical hlt h]
  constructor
  · exact fun hpack => hpack.2.1
  · exact fun hcanonical => ⟨length_le_of_canonical hlt h hcanonical, hcanonical, h⟩

/-- A label is packed into a payload exactly if the payload is canonical and this is its label. -/
theorem pack?_eq_some_iff_canonical {family : Family} {label : String} :
    family.pack? label = some payload ↔
      payload < payloadBound ∧ family.Canonical payload ∧
        family.unpack? payload = some label.toList := by
  constructor
  · intro h
    have hlt := payload?_lt (pack?_eq_some_iff.1 h).2.1
    have hunpack := unpack?_of_pack? h
    rw [← String.ofList_toList (s := label)] at h
    exact ⟨hlt, (pack?_iff_canonical hlt hunpack).1 h, hunpack⟩
  · rintro ⟨hlt, hcanonical, hunpack⟩
    have hpack := (pack?_iff_canonical hlt hunpack).2 hcanonical
    rwa [String.ofList_toList] at hpack

end QuadBase.Code.Family
