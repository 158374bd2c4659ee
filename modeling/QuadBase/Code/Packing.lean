import QuadBase.Rdf.Term
import QuadBase.Value.Calendar
import QuadBase.Value.Shortest

/-!
# Packing labels into 24 bits

The labels of numeric, boolean and calendar datatypes are often short enough for their value to fit
into a payload of 24 bits.  Each family of datatypes has its own layout.  Packing must not lose
the spelling, so a label is packed only if unpacking its payload gives the same label again: `+42`,
`042`, `1.50` and the boolean `1` are not packed.

Values are read and written by `Value`, which stands for a library of value types.  Any other one
with the same laws packs the same labels into the same payloads (`ValueTypes.Lawful.pack?_eq`).

* `Family.payload?` — the payload of a value, one layout per family.
* `Family.unpack?` — the label of a payload.
* `Family.pack?` — the payload of a label that survives the way back; `Family.pack?_eq_some_iff`
  says when there is one.
* `Family.unpack?_of_pack?` — **packing is lossless.**
-/

namespace QuadBase.Code

open QuadBase.Value

/-- The datatypes that share a layout. -/
inductive Family where
  | decimal
  | integer
  | double
  | float
  | boolean
  /-- Values without a time of day. -/
  | calendar (shape : CalendarShape)
  /-- Values with a time of day, which never fit. -/
  | timeOfDay
  deriving DecidableEq

namespace Family

/-- Payloads are below this bound. -/
def payloadBound : Nat := Nat.pow 2 24

/-- Added to an integer to make it a payload. -/
def integerBias : Nat := Nat.pow 2 23

/-- Added to the unscaled value of a decimal. -/
def decimalBias : Nat := Nat.pow 2 18

/-- The width of the unscaled value of a decimal, as a factor. -/
def decimalFactor : Nat := Nat.pow 2 19

/-- Added to the number of places of a decimal. -/
def placesBias : Nat := 16

/-- The greatest number of places of a packed decimal. -/
def maxPlaces : Nat := 15

/-- The part of a 64-bit float that a payload cannot hold, as a factor. -/
def doubleFactor : Nat := Nat.pow 2 40

/-- Added to a year, so that a payload tells year zero from no year. -/
def yearBias : Nat := Nat.pow 2 14

/-- The payload of an integer in `[-2²³, 2²³)`. -/
def integerPayload? (value : Int) : Option Nat :=
  let biased := value + integerBias
  if 0 ≤ biased ∧ biased < payloadBound then some biased.toNat else none

/-- The payload of a decimal: in lowest form at most fifteen places, and an unscaled value of less
than eighteen bits. -/
def decimalPayload? (value : Decimal) : Option Nat :=
  let ⟨coefficient, places⟩ := value.magnitude
  if places ≤ maxPlaces ∧ coefficient < decimalBias then
    let unscaled : Int := if value.units < 0 then -coefficient else coefficient
    some ((places + placesBias) * decimalFactor + (unscaled + decimalBias).toNat)
  else none

/-- The payload of a 64-bit float: its 24 upper bits, if the others are zero. -/
def doublePayload? (word : Nat) : Option Nat :=
  if word % doubleFactor = 0 then some (word / doubleFactor) else none

/-- The payload of calendar fields: day, month and biased year from the bottom, zero for a field
that is not there. -/
def calendarPayload? (fields : CalendarFields) : Option Nat :=
  let day := fields.day.getD 0
  let month := fields.month.getD 0
  if 31 < day ∨ 12 < month then none
  else match fields.year with
    | none => some (day + 32 * month)
    | some year =>
      if year.natAbs < yearBias then some (day + 32 * month + 512 * (year + yearBias).toNat)
      else none

/-- The fields of a payload, which need not be a date that exists. -/
def calendarFields (payload : Nat) : CalendarFields :=
  let day := payload % 32
  let month := payload / 32 % 16
  let year := payload / 512
  { year := if year = 0 then none else some ((year : Int) - yearBias)
    month := if month = 0 then none else some month
    day := if day = 0 then none else some day }

/-- The payload of the value behind a label, if there is a value and it fits. -/
def payload? (family : Family) (label : List Char) : Option Nat :=
  match family with
  | decimal => (Decimal.read? label).bind decimalPayload?
  | integer => (Integer.read? label).bind integerPayload?
  | double => (binary64.read? label).bind doublePayload?
  | float => (binary32.read? label).bind fun word => doublePayload? (binary64.convert binary32 word)
  | boolean =>
    if label = "true".toList ∨ label = "1".toList then some 1
    else if label = "false".toList ∨ label = "0".toList then some 0
    else none
  | calendar shape => (Calendar.read? shape label).bind fun
    | (fields, none) => calendarPayload? fields
    | (_, some _) => none
  | timeOfDay => none

def unpackDecimal? (payload : Nat) : Option Decimal :=
  let places := payload / decimalFactor - placesBias
  if placesBias ≤ payload / decimalFactor ∧ places ≤ maxPlaces then
    let unscaled : Int := (payload % decimalFactor : Nat) - (decimalBias : Int)
    some ⟨unscaled * (Nat.pow 10 (Decimal.unitPlaces - places) : Nat)⟩
  else none

/-- The label of a payload, none if the layout has no use for it. -/
def unpack? (family : Family) (payload : Nat) : Option (List Char) :=
  match family with
  | decimal => (unpackDecimal? payload).map Decimal.text
  | integer => some (Integer.text ((payload : Int) - integerBias))
  | double => some (binary64.text (payload * doubleFactor))
  | float => some (binary32.text (binary32.convert binary64 (payload * doubleFactor)))
  | boolean =>
    if payload = 0 then some "false".toList
    else if payload = 1 then some "true".toList
    else none
  | calendar shape => Calendar.text? shape (calendarFields payload)
  | timeOfDay => none

/-- No payload stands for a longer label.  The longest belong to 64-bit floats: at most seventeen
digits, and at most 324 zeros beside them to reach the point. -/
def maxLabelLength : Nat := 400

/-- The payload of a label, if its value fits and the label is the one that the payload stands
for.  The value of a label that is too long for any payload is not computed, so that the work is
bounded for numerals of any length. -/
def pack? (family : Family) (label : String) : Option Nat :=
  if label.length ≤ maxLabelLength then
    (family.payload? label.toList).filter fun payload =>
      family.unpack? payload == some label.toList
  else none

/-- When a label has a payload. -/
theorem pack?_eq_some_iff {family : Family} {label : String} {payload : Nat} :
    family.pack? label = some payload ↔
      label.length ≤ maxLabelLength ∧ family.payload? label.toList = some payload ∧
        family.unpack? payload = some label.toList := by
  unfold pack?
  split
  next h => rw [Option.filter_eq_some_iff, beq_iff_eq, and_iff_right h]
  next h => simp [h]

/-- **Packing is lossless**: the payload of a label is the payload of no other label. -/
theorem unpack?_of_pack? {family : Family} {label : String} {payload : Nat}
    (h : family.pack? label = some payload) : family.unpack? payload = some label.toList :=
  (pack?_eq_some_iff.1 h).2.2

end Family

/-- A datatype whose labels may be packed, with its layout. -/
structure PackedDatatype where
  /-- The local name of the datatype in the namespace of XML Schema. -/
  name : String
  family : Family

/-- The packed datatypes.  The position of a datatype in this table, counted from one, is its number
in every code. -/
def packedDatatypes : List PackedDatatype :=
  [⟨"decimal", .decimal⟩,
   ⟨"integer", .integer⟩,
   ⟨"nonPositiveInteger", .integer⟩,
   ⟨"negativeInteger", .integer⟩,
   ⟨"nonNegativeInteger", .integer⟩,
   ⟨"positiveInteger", .integer⟩,
   ⟨"long", .integer⟩,
   ⟨"int", .integer⟩,
   ⟨"short", .integer⟩,
   ⟨"byte", .integer⟩,
   ⟨"unsignedLong", .integer⟩,
   ⟨"unsignedInt", .integer⟩,
   ⟨"unsignedShort", .integer⟩,
   ⟨"unsignedByte", .integer⟩,
   ⟨"double", .double⟩,
   ⟨"float", .float⟩,
   ⟨"boolean", .boolean⟩,
   ⟨"dateTime", .timeOfDay⟩,
   ⟨"date", .calendar .date⟩,
   ⟨"time", .timeOfDay⟩,
   ⟨"gYearMonth", .calendar .yearMonth⟩,
   ⟨"gMonthDay", .calendar .monthDay⟩,
   ⟨"gYear", .calendar .year⟩,
   ⟨"gMonth", .calendar .month⟩,
   ⟨"gDay", .calendar .day⟩]

def PackedDatatype.iri (d : PackedDatatype) : Rdf.Iri :=
  Rdf.xsd d.name

/-- The packed datatypes by IRI, with number and layout. -/
def packedEntries : List (Rdf.Iri × Nat × Family) :=
  (packedDatatypes.zipIdx 1).map fun (d, number) => (d.iri, number, d.family)

/-- The number and the layout of a datatype, if its labels may be packed. -/
def packedNumber? (datatype : Rdf.Iri) : Option (Nat × Family) :=
  (packedEntries.find? (·.1 = datatype)).map (·.2)

def packedDatatype? (number : Nat) : Option PackedDatatype :=
  if number = 0 then none else packedDatatypes[number - 1]?

end QuadBase.Code
