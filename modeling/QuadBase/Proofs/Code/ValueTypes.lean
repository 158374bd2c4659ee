import QuadBase.Proofs.Code.Calendars
import QuadBase.Proofs.Code.Decimals
import QuadBase.Proofs.Value.FewestDigits

/-!
# The value types behind packing

Packing does not read or write values itself.  It asks the types of the values to read a label and to
write a value, and those belong to another library.  The readers and writers under `Value` stand for
that library; here it is a parameter, `ValueTypes`, and packing is defined over it, step by step.

`ValueTypes.Lawful` says what is relied on.  It is little: that what is written is read back, that
integers, decimals and floats are written in the one canonical way, and that a calendar label is
accepted only if it is well formed and its month and day exist, and for certain if it is written by
packing itself.  How any other label is read does not matter, since such a label is not packed.

* `lawful_valueTypes` — the readers and writers under `Value` are lawful.
* `Lawful.pack?_eq`, `Lawful.unpack?_eq` — **any lawful library packs and unpacks as they do**, so
  that everything proved about `Family.pack?` and `Family.unpack?` holds for it.
-/

namespace QuadBase.Code

open QuadBase.Value Family

/-- The readers and writers of the value types. -/
structure ValueTypes where
  readInteger? : List Char → Option Int
  integerText : Int → List Char
  readDecimal? : List Char → Option Decimal
  decimalText : Decimal → List Char
  /-- The word of a 64-bit float. -/
  readDouble? : List Char → Option Nat
  doubleText : Nat → List Char
  /-- The word of a 32-bit float. -/
  readFloat? : List Char → Option Nat
  floatText : Nat → List Char
  readBoolean? : List Char → Option Bool
  booleanText : Bool → List Char
  /-- Whether a label belongs to a calendar datatype.  Packing takes the fields off itself. -/
  accepts : CalendarShape → String → Bool

/-- What is relied on of the floats of a format.  Only one not-a-number has a text. -/
structure FloatLaws (f : BinaryFormat) (read? : List Char → Option Nat) (text : Nat → List Char) :
    Prop where
  read?_lt : ∀ label word, read? label = some word → word < 2 * f.signBit
  read?_text : ∀ word, word < 2 * f.signBit → read? (text word) = some (f.quieted word)
  isText : ∀ word, word < 2 * f.signBit →
    f.IsText (f.isNegative word) (f.magnitude word) (text word)

namespace FloatLaws

variable {f : BinaryFormat} {read? : List Char → Option Nat} {text : Nat → List Char} {word : Nat}

lemma text_eq (laws : FloatLaws f read? text) (hf : f.Fits64) (hword : word < 2 * f.signBit) :
    text word = f.text word :=
  (BinaryFormat.isText_iff hf).1 (laws.isText word hword)

lemma read?_text_eq (laws : FloatLaws f read? text) (hf : f.Fits64) (hword : word < 2 * f.signBit) :
    read? (f.text word) = some (f.quieted word) := by
  rw [← laws.text_eq hf hword]
  exact laws.read?_text word hword

end FloatLaws

namespace ValueTypes

/-- What is relied on of the value types. -/
structure Lawful (types : ValueTypes) : Prop where
  readInteger?_text : ∀ value, Integer.least ≤ value → value ≤ Integer.greatest →
    types.readInteger? (types.integerText value) = some value
  integerText_isCanonical : ∀ value, Integer.least ≤ value → value ≤ Integer.greatest →
    Integer.IsCanonical (types.integerText value) value
  /-- Zeros at the end of the fraction are read. -/
  readDecimal?_numeral : ∀ (unscaled : Int) (places : Nat), places ≤ Decimal.unitPlaces →
    unscaled.natAbs * 10 ^ (Decimal.unitPlaces - places) < Decimal.magnitudeBound →
    types.readDecimal? (signed (unscaled < 0) (Positional.text ⟨unscaled.natAbs, places⟩)) =
      some ⟨unscaled * (10 ^ (Decimal.unitPlaces - places) : Nat)⟩
  decimalText_isCanonical : ∀ label (unscaled : Int) (places : Nat), places ≤ Decimal.unitPlaces →
    Positional.IsLowest ⟨unscaled.natAbs, places⟩ →
    types.readDecimal? label = some ⟨unscaled * (10 ^ (Decimal.unitPlaces - places) : Nat)⟩ →
    Decimal.IsCanonical
      (types.decimalText ⟨unscaled * (10 ^ (Decimal.unitPlaces - places) : Nat)⟩) unscaled places
  double : FloatLaws binary64 types.readDouble? types.doubleText
  float : FloatLaws binary32 types.readFloat? types.floatText
  readBoolean?_text : ∀ value, types.readBoolean? (types.booleanText value) = some value
  booleanText_true : types.booleanText true = "true".toList
  booleanText_false : types.booleanText false = "false".toList
  /-- Only dates that exist are accepted. -/
  accepts_sound : ∀ shape label, types.accepts shape label = true →
    ∃ s : Calendar.Spelling, s.IsWellFormed shape ∧ s.label shape = label.toList ∧
      (s.fields shape).Real
  /-- And these are, in the spelling that packing gives them. -/
  accepts_text : ∀ shape fields (label : String), Calendar.text? shape fields = some label.toList →
    fields.Real → (∀ year ∈ fields.year, (year.natAbs : Int) ≤ Integer.greatest) →
    types.accepts shape label = true

/-! ## Packing with any value types -/

/-- The payload of the value behind a label, if there is a value and it fits. -/
def payload? (types : ValueTypes) (family : Family) (label : String) : Option Nat :=
  match family with
  | .decimal => (types.readDecimal? label.toList).bind fun value =>
    (checkedTextPayload (types.decimalText value)).toOption.join
  | .integer => (types.readInteger? label.toList).bind integerPayload?
  | .double => (types.readDouble? label.toList).bind doublePayload?
  | .float => (types.readFloat? label.toList).bind fun word =>
    doublePayload? (binary64.convert binary32 word)
  | .boolean => (types.readBoolean? label.toList).map Bool.toNat
  | .calendar shape =>
    if types.accepts shape label then (Calendar.scanFields? shape label.toList).bind packFields?
    else none
  | .timeOfDay => none

/-- The label of a payload, none if the layout has no use for it.  The digits of a decimal are read
once more, so that its type decides on the canonical text. -/
def unpack? (types : ValueTypes) (family : Family) (payload : Nat) : Option (List Char) :=
  match family with
  | .decimal =>
    if placesBias ≤ payload / decimalFactor ∧ places payload ≤ maxPlaces then
      (types.readDecimal? (signed (unscaled payload < 0)
        (Positional.text ⟨(unscaled payload).natAbs, places payload⟩))).map types.decimalText
    else none
  | .integer => some (types.integerText ((payload : Int) - integerBias))
  | .double => some (types.doubleText (payload * doubleFactor))
  | .float => some (types.floatText (binary32.convert binary64 (payload * doubleFactor)))
  | .boolean =>
    if payload = 0 then some (types.booleanText false)
    else if payload = 1 then some (types.booleanText true)
    else none
  | .calendar shape => Calendar.text? shape (unpackFields payload)
  | .timeOfDay => none

/-- The payload of a label, if its value fits and the label is the one that the payload stands for. -/
def pack? (types : ValueTypes) (family : Family) (label : String) : Option Nat :=
  (types.payload? family label).filter fun payload =>
    types.unpack? family payload == some label.toList

variable {types : ValueTypes} {family : Family} {payload : Nat} {label : String}

lemma pack?_eq_some_iff : types.pack? family label = some payload ↔
    types.payload? family label = some payload ∧
      types.unpack? family payload = some label.toList := by
  rw [pack?, Option.filter_eq_some_iff, beq_iff_eq]

/-- Packed calendar values ask for no more than whether a label is accepted. -/
lemma pack?_calendar (types : ValueTypes) (shape : CalendarShape) (label : String) :
    types.pack? (.calendar shape) label = packAccepted? types.accepts shape label := by
  rw [pack?, payload?, packAccepted?]
  split <;> rfl

/-! ## Decimals in lowest form -/

/-- Every decimal has an unscaled value that cannot be shortened. -/
lemma exists_isLowest (value : Decimal) :
    ∃ (n : Int) (k : Nat), k ≤ Decimal.unitPlaces ∧ Positional.IsLowest ⟨n.natAbs, k⟩ ∧
      value = ⟨n * (10 ^ (Decimal.unitPlaces - k) : Nat)⟩ := by
  have hplaces := Positional.lowest_places_le ⟨value.units.natAbs, Decimal.unitPlaces⟩
  have hlowest := Positional.lowest_isLowest ⟨value.units.natAbs, Decimal.unitPlaces⟩
  have hcoefficient := Positional.lowest_coefficient ⟨value.units.natAbs, Decimal.unitPlaces⟩
  generalize Positional.lowest ⟨value.units.natAbs, Decimal.unitPlaces⟩ = d at *
  obtain ⟨units⟩ := value
  dsimp only at hplaces hcoefficient
  refine ⟨if units < 0 then -d.coefficient else d.coefficient, d.places, hplaces, ?_, ?_⟩
  · split
    next => rwa [Int.natAbs_neg]
    next => exact hlowest
  · rw [Decimal.mk.injEq]
    split
    next hneg =>
      rw [Int.neg_mul, ← Int.natCast_mul, hcoefficient]
      omega
    next hneg =>
      rw [← Int.natCast_mul, hcoefficient]
      omega

lemma text_scaled {n : Int} {k : Nat} (hk : k ≤ Decimal.unitPlaces)
    (h : Positional.IsLowest ⟨n.natAbs, k⟩) :
    (⟨n * (10 ^ (Decimal.unitPlaces - k) : Nat)⟩ : Decimal).text =
      signed (n < 0) (Positional.text ⟨n.natAbs, k⟩) := by
  rw [Decimal.text, magnitude_scaled n hk, Positional.lowest_of_isLowest h]
  simp only [scaled_neg_iff]

/-! ## Texts -/

namespace Lawful

variable (laws : types.Lawful)
include laws

lemma integerText_eq {value : Int} (hleast : Integer.least ≤ value)
    (hgreatest : value ≤ Integer.greatest) : types.integerText value = Integer.text value :=
  Integer.isCanonical_iff.1 (laws.integerText_isCanonical value hleast hgreatest)

/-- The text of a decimal that is read is the canonical one. -/
lemma decimalText_eq {cs : List Char} {value : Decimal} (h : types.readDecimal? cs = some value) :
    types.decimalText value = value.text := by
  obtain ⟨n, k, hk, hlowest, rfl⟩ := exists_isLowest value
  have hcanonical := laws.decimalText_isCanonical cs n k hk hlowest h
  rw [(Decimal.isCanonical_iff.1 hcanonical).2, text_scaled hk hlowest]

/-- The payload of a decimal depends on its value only. -/
lemma payload?_decimal (label : String) :
    types.payload? .decimal label = (types.readDecimal? label.toList).bind decimalPayload? := by
  rw [payload?]
  refine Option.bind_congr fun value hvalue => ?_
  rw [laws.decimalText_eq hvalue]
  exact congrArg (fun checked => checked.toOption.join) (checkedDecimalPayload_eq value)

lemma readInteger?_text_eq {value : Int} (hleast : Integer.least ≤ value)
    (hgreatest : value ≤ Integer.greatest) :
    types.readInteger? (Integer.text value) = some value := by
  rw [← laws.integerText_eq hleast hgreatest]
  exact laws.readInteger?_text value hleast hgreatest

/-- Every decimal in range is read back from its canonical text. -/
lemma readDecimal?_text {value : Decimal} (h : value.units.natAbs < Decimal.magnitudeBound) :
    types.readDecimal? value.text = some value := by
  obtain ⟨n, k, hk, hlowest, rfl⟩ := exists_isLowest value
  rw [Int.natAbs_mul, Int.natAbs_natCast] at h
  rw [text_scaled hk hlowest]
  exact laws.readDecimal?_numeral n k hk h

/-! ## Unpacking -/

lemma unpack?_decimal (hlt : payload < payloadBound) :
    types.unpack? .decimal payload = decimal.unpack? payload := by
  rw [unpack?, Family.unpack?]
  by_cases hbias : placesBias ≤ payload / decimalFactor
  · have hscaled := natAbs_scaled_lt payload (places payload)
    rw [Int.natAbs_mul, Int.natAbs_natCast] at hscaled
    have hread := laws.readDecimal?_numeral (unscaled payload) (places payload)
      ((places_le hlt).trans (by decide)) hscaled
    rw [if_pos ⟨hbias, places_le hlt⟩, hread, (unpackDecimal?_eq_some_iff hlt).2 ⟨hbias, rfl⟩,
      Option.map_some, Option.map_some, laws.decimalText_eq hread]
  · have hnone : unpackDecimal? payload = none := if_neg fun h => hbias h.1
    rw [if_neg fun h => hbias h.1, hnone, Option.map_none]

/-- **Any lawful value types unpack in the same way.** -/
theorem unpack?_eq (family : Family) (hlt : payload < payloadBound) :
    types.unpack? family payload = family.unpack? payload := by
  cases family with
  | decimal => exact laws.unpack?_decimal hlt
  | integer =>
    obtain ⟨hleast, hgreatest⟩ := integer_in_range hlt
    rw [unpack?, Family.unpack?, laws.integerText_eq hleast hgreatest]
  | double =>
    rw [unpack?, Family.unpack?, laws.double.text_eq BinaryFormat.fits64_binary64
      (mul_doubleFactor_lt hlt)]
  | float =>
    rw [unpack?, Family.unpack?, laws.float.text_eq BinaryFormat.fits64_binary32
      (BinaryFormat.convert_lt (by decide) _ _)]
  | boolean => rw [unpack?, Family.unpack?, laws.booleanText_true, laws.booleanText_false]
  | calendar shape => rw [unpack?, Family.unpack?, unpackFields_eq]
  | timeOfDay => rfl

/-! ## Packing -/

lemma payload?_lt (h : types.payload? family label = some payload) : payload < payloadBound := by
  cases family with
  | decimal =>
    rw [laws.payload?_decimal] at h
    obtain ⟨value, -, hpayload⟩ := Option.bind_eq_some_iff.1 h
    exact decimalPayload?_lt hpayload
  | integer =>
    obtain ⟨value, -, hpayload⟩ := Option.bind_eq_some_iff.1 h
    exact integerPayload?_lt hpayload
  | double =>
    obtain ⟨word, hread, hpayload⟩ := Option.bind_eq_some_iff.1 h
    exact doublePayload?_lt (laws.double.read?_lt _ word hread) hpayload
  | float =>
    obtain ⟨word, -, hpayload⟩ := Option.bind_eq_some_iff.1 h
    exact doublePayload?_lt (BinaryFormat.convert_lt (by decide) _ _) hpayload
  | boolean =>
    obtain ⟨value, -, rfl⟩ := Option.map_eq_some_iff.1 h
    exact (Bool.toNat_lt value).trans (by decide)
  | calendar shape =>
    obtain ⟨-, hfields⟩ := Option.ite_none_right_eq_some.1 h
    obtain ⟨fields, -, hpayload⟩ := Option.bind_eq_some_iff.1 hfields
    exact calendarPayload?_lt (packFields?_eq fields ▸ hpayload)
  | timeOfDay => cases h

/-- The label of a payload is read as the same value. -/
lemma payload?_eq (hfamily : ∀ shape, family ≠ .calendar shape) (hlt : payload < payloadBound)
    (h : family.unpack? payload = some label.toList) :
    types.payload? family label = family.payload? label.toList := by
  cases family with
  | decimal =>
    obtain ⟨value, hvalue, hlabel⟩ := Option.map_eq_some_iff.1 h
    have hscaled : value.units.natAbs < Decimal.magnitudeBound := by
      obtain ⟨-, rfl⟩ := (unpackDecimal?_eq_some_iff hlt).1 hvalue
      exact natAbs_scaled_lt _ _
    rw [laws.payload?_decimal, Family.payload?, ← hlabel, laws.readDecimal?_text hscaled,
      Decimal.read?_text hscaled]
  | integer =>
    obtain ⟨hleast, hgreatest⟩ := integer_in_range hlt
    rw [payload?, Family.payload?, ← Option.some.inj h, laws.readInteger?_text_eq hleast hgreatest,
      Integer.read?_text hleast hgreatest]
  | double =>
    have hword := mul_doubleFactor_lt hlt
    rw [payload?, Family.payload?, ← Option.some.inj h, laws.double.read?_text_eq
      BinaryFormat.fits64_binary64 hword, BinaryFormat.read?_text BinaryFormat.fits64_binary64 hword]
  | float =>
    have hword : binary32.convert binary64 (payload * doubleFactor) < 2 * binary32.signBit :=
      BinaryFormat.convert_lt (by decide) _ _
    rw [payload?, Family.payload?, ← Option.some.inj h, laws.float.read?_text_eq
      BinaryFormat.fits64_binary32 hword, BinaryFormat.read?_text BinaryFormat.fits64_binary32 hword]
  | boolean =>
    have htrue := laws.readBoolean?_text true
    have hfalse := laws.readBoolean?_text false
    rw [laws.booleanText_true] at htrue
    rw [laws.booleanText_false] at hfalse
    rw [Family.unpack?] at h
    split at h
    next =>
      rw [payload?, ← Option.some.inj h, hfalse]
      rfl
    next =>
      obtain ⟨-, heq⟩ := Option.ite_none_right_eq_some.1 h
      rw [payload?, ← Option.some.inj heq, htrue]
      rfl
  | calendar shape => exact absurd rfl (hfamily shape)
  | timeOfDay => cases h

/-- **Any lawful value types pack the same labels in the same way.** -/
theorem pack?_eq (family : Family) (label : String) :
    types.pack? family label = family.pack? label := by
  by_cases hfamily : ∃ shape, family = .calendar shape
  · obtain ⟨shape, rfl⟩ := hfamily
    rw [pack?_calendar]
    exact packAccepted?_eq_pack? (laws.accepts_sound shape) (laws.accepts_text shape) label
  · refine Option.ext fun payload => ?_
    rw [pack?_eq_some_iff, pack?_eq_some_iff_canonical]
    have hread (hlt : payload < payloadBound) (h : family.unpack? payload = some label.toList) :
        types.payload? family label = some payload ↔ family.Canonical payload := by
      rw [laws.payload?_eq (fun shape h => hfamily ⟨shape, h⟩) hlt h, payload?_iff_canonical hlt h]
    constructor
    · rintro ⟨hpayload, hunpack⟩
      have hlt := laws.payload?_lt hpayload
      rw [laws.unpack?_eq family hlt] at hunpack
      exact ⟨hlt, (hread hlt hunpack).1 hpayload, hunpack⟩
    · rintro ⟨hlt, hcanonical, hunpack⟩
      exact ⟨(hread hlt hunpack).2 hcanonical, by rw [laws.unpack?_eq family hlt, hunpack]⟩

end Lawful

end ValueTypes

/-! ## The value types in use -/

/-- The readers and writers under `Value`. -/
def valueTypes : ValueTypes where
  readInteger? := Integer.read?
  integerText := Integer.text
  readDecimal? := Decimal.read?
  decimalText := Decimal.text
  readDouble? := binary64.read?
  doubleText := binary64.text
  readFloat? := binary32.read?
  floatText := binary32.text
  readBoolean? label :=
    if label = "true".toList ∨ label = "1".toList then some true
    else if label = "false".toList ∨ label = "0".toList then some false
    else none
  booleanText value := if value then "true".toList else "false".toList
  accepts := readable

lemma floatLaws {f : BinaryFormat} (hf : f.Fits64) (hbits : 0 < f.fractionBits) :
    FloatLaws f f.read? f.text where
  read?_lt _ _ := BinaryFormat.read?_lt hbits
  read?_text _ := BinaryFormat.read?_text hf
  isText word _ := BinaryFormat.isText_text hf word

/-- **They are lawful.** -/
theorem lawful_valueTypes : valueTypes.Lawful where
  readInteger?_text _ := Integer.read?_text
  integerText_isCanonical _ _ _ := Integer.isCanonical_iff.2 rfl
  readDecimal?_numeral _ _ hk hn := read?_signed_text hk hn
  decimalText_isCanonical _ _ _ hk hlowest _ :=
    Decimal.isCanonical_iff.2 ⟨hlowest, ValueTypes.text_scaled hk hlowest⟩
  double := floatLaws BinaryFormat.fits64_binary64 (by decide)
  float := floatLaws BinaryFormat.fits64_binary32 (by decide)
  readBoolean?_text value := by cases value <;> decide
  booleanText_true := rfl
  booleanText_false := rfl
  accepts_sound _ _ := exists_real_of_readable
  accepts_text _ _ _ := readable_of_text?

end QuadBase.Code
