import QuadBase.Value.Integer

/-!
# Calendar labels

The calendar datatypes without a time of day spell a choice of year, month and day, and an optional
time zone.  Years have at least four digits, more only without a leading zero, and may be
negative.  Months and days have two digits and have to exist: the length of a month follows the
proleptic Gregorian calendar with a year zero, and February has 28 days where the year is
open.

The reader stands for the parsers of the same library of value types as `Integer`; packing asks them
only whether they accept a label, and the laws say which they have to (`Code.ValueTypes.Lawful`).

* `Calendar.read?` — fields and time zone of a label.
* `Calendar.text?` — the label of fields without a time zone, if the shape has just those fields.
-/

namespace QuadBase.Value

/-- The fields that a calendar datatype consists of. -/
inductive CalendarShape where
  | date
  | yearMonth
  | monthDay
  | year
  | month
  | day
  deriving DecidableEq

structure CalendarFields where
  year : Option Int := none
  month : Option Nat := none
  day : Option Nat := none
  deriving DecidableEq

namespace Calendar

/-- Takes a year off the front of a label. -/
def readYear? (cs : List Char) : Option (Int × List Char) := do
  let (negative, unsigned) := match cs with
    | '-' :: rest => (true, rest)
    | _ => (false, cs)
  let ds := unsigned.takeWhile Char.isDigit
  if ds.length < 4 ∨ (4 < ds.length ∧ ds.head? = some '0') then none
  else
    let magnitude ← readNat? ds
    if (magnitude : Int) ≤ Integer.greatest then
      some (if negative then -magnitude else magnitude, unsigned.dropWhile Char.isDigit)
    else none

/-- Takes a number of two digits off the front of a label. -/
def readTwoDigits? : List Char → Option (Nat × List Char)
  | tens :: units :: rest => (readNat? [tens, units]).map (·, rest)
  | _ => none

/-- Takes a dash off the front of a label. -/
def readDash? : List Char → Option (List Char)
  | '-' :: rest => some rest
  | _ => none

/-- The time zone at the end of a label, in minutes east of Greenwich.  Nothing at all means that
there is no time zone. -/
def readZone? : List Char → Option (Option Int)
  | [] => some none
  | ['Z'] => some (some 0)
  | sign :: rest => do
    let (hours, rest) ← readTwoDigits? rest
    let (minutes, rest) ← match rest with
      | ':' :: rest => readTwoDigits? rest
      | _ => none
    let total := 60 * hours + minutes
    if rest.isEmpty ∧ minutes < 60 ∧ total ≤ 60 * 14 then
      if sign = '+' then some (some total)
      else if sign = '-' then some (some (-total))
      else none
    else none

/-- Whether a year has a 29th of February. -/
def isLeap (year : Int) : Bool :=
  year % 4 = 0 && (year % 100 ≠ 0 || year % 400 = 0)

def monthLength (year : Option Int) (month : Nat) : Nat :=
  if month = 2 then (if year.any isLeap then 29 else 28)
  else if month = 4 ∨ month = 6 ∨ month = 9 ∨ month = 11 then 30
  else 31

/-- Takes a month off the front of a label. -/
def readMonth? (cs : List Char) : Option (Nat × List Char) :=
  (readTwoDigits? cs).filter fun (month, _) => 1 ≤ month && month ≤ 12

/-- Takes a day, at most `length`, off the front of a label. -/
def readDay? (length : Nat) (cs : List Char) : Option (Nat × List Char) :=
  (readTwoDigits? cs).filter fun (day, _) => 1 ≤ day && day ≤ length

/-- The fields at the front of a label and what follows them. -/
def readFields? (shape : CalendarShape) (cs : List Char) :
    Option (CalendarFields × List Char) := do
  match shape with
  | .date =>
    let (year, cs) ← readYear? cs
    let (month, cs) ← readMonth? (← readDash? cs)
    let (day, cs) ← readDay? (monthLength (some year) month) (← readDash? cs)
    some (⟨some year, some month, some day⟩, cs)
  | .yearMonth =>
    let (year, cs) ← readYear? cs
    let (month, cs) ← readMonth? (← readDash? cs)
    some (⟨some year, some month, none⟩, cs)
  | .year =>
    let (year, cs) ← readYear? cs
    some (⟨some year, none, none⟩, cs)
  | .monthDay =>
    let (month, cs) ← readMonth? (← readDash? (← readDash? cs))
    let (day, cs) ← readDay? (monthLength none month) (← readDash? cs)
    some (⟨none, some month, some day⟩, cs)
  | .month =>
    let (month, cs) ← readMonth? (← readDash? (← readDash? cs))
    some (⟨none, some month, none⟩, cs)
  | .day =>
    let (day, cs) ← readDay? 31 (← readDash? (← readDash? (← readDash? cs)))
    some (⟨none, none, some day⟩, cs)

/-- The fields and the time zone of a label. -/
def read? (shape : CalendarShape) (label : List Char) :
    Option (CalendarFields × Option Int) := do
  let (fields, rest) ← readFields? shape label
  let zone ← readZone? rest
  some (fields, zone)

/-- A year with at least four digits. -/
def yearText (year : Int) : List Char :=
  signed (year < 0) (paddedDigits 4 year.natAbs)

/-- The label of fields without a time zone.  There is none unless exactly the fields of the shape
are given; whether month and day exist is not asked. -/
def text? : CalendarShape → CalendarFields → Option (List Char)
  | .date, ⟨some year, some month, some day⟩ =>
    some (yearText year ++ '-' :: paddedDigits 2 month ++ '-' :: paddedDigits 2 day)
  | .yearMonth, ⟨some year, some month, none⟩ =>
    some (yearText year ++ '-' :: paddedDigits 2 month)
  | .year, ⟨some year, none, none⟩ => some (yearText year)
  | .monthDay, ⟨none, some month, some day⟩ =>
    some ('-' :: '-' :: paddedDigits 2 month ++ '-' :: paddedDigits 2 day)
  | .month, ⟨none, some month, none⟩ => some ('-' :: '-' :: paddedDigits 2 month)
  | .day, ⟨none, none, some day⟩ => some ('-' :: '-' :: '-' :: paddedDigits 2 day)
  | _, _ => none

end Calendar

end QuadBase.Value
