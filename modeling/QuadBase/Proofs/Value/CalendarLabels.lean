import QuadBase.Proofs.Value.Calendar
import QuadBase.Proofs.Value.Spelling

/-!
# Calendar labels by their characters

A calendar label is put together from rows of characters: a year of at least four digits behind an
optional minus sign, a month and a day of two digits, dashes in front of and between them, and a
time zone.  Here the labels are given by these rows (`Calendar.Spelling`), without recourse to the
readers and writers of labels.

* `Calendar.read?_spelled` — **a label that is read is well formed**, and it stands for the numbers
  in its rows.
* `Calendar.scanFields?_label` — one scan for all shapes, in three stages, **finds the fields of a
  well-formed label without a time zone**, and it gives up at a time zone.
* `Calendar.text?_fields_eq_label_iff` — the fields are written as the same label **exactly if the
  year is spelled with its own digits, padded to four, and with its own sign.**
-/

namespace QuadBase.Value

/-! ## Shapes -/

namespace CalendarShape

def hasYear : CalendarShape → Bool
  | .date | .yearMonth | .year => true
  | .monthDay | .month | .day => false

def hasMonth : CalendarShape → Bool
  | .date | .yearMonth | .monthDay | .month => true
  | .year | .day => false

def hasDay : CalendarShape → Bool
  | .date | .monthDay | .day => true
  | .yearMonth | .year | .month => false

/-- Shapes are told apart by their fields. -/
lemma eq_of_has_eq {shape other : CalendarShape} (hyear : shape.hasYear = other.hasYear)
    (hmonth : shape.hasMonth = other.hasMonth) (hday : shape.hasDay = other.hasDay) :
    shape = other := by
  cases shape <;> cases other <;> simp_all [hasYear, hasMonth, hasDay]

end CalendarShape

namespace Calendar

/-! ## Labels put together from rows of characters -/

/-- The rows of characters that a label is put together from. -/
structure Spelling where
  /-- Whether there is a minus sign in front of the year. -/
  negative : Bool := false
  year : List Char := []
  month : List Char := []
  day : List Char := []
  zone : List Char := []

/-- Two digits that spell a number from one to `bound`. -/
structure IsTwoDigits (bound : Nat) (cs : List Char) : Prop where
  length_eq : cs.length = 2
  isDigit : ∀ c ∈ cs, c.isDigit = true
  range : 1 ≤ Nat.ofDigitChars 10 cs 0 ∧ Nat.ofDigitChars 10 cs 0 ≤ bound

/-- A time zone, which may be left out.  An offset has hours and minutes, and is of fourteen hours
at most. -/
inductive IsZone : List Char → Prop
  | absent : IsZone []
  | utc : IsZone ['Z']
  | offset (sign : Char) (hours minutes : List Char) (hsign : sign = '+' ∨ sign = '-')
      (hhours : hours.length = 2 ∧ ∀ c ∈ hours, c.isDigit = true)
      (hminutes : minutes.length = 2 ∧ ∀ c ∈ minutes, c.isDigit = true)
      (hrange : Nat.ofDigitChars 10 minutes 0 < 60 ∧
        60 * Nat.ofDigitChars 10 hours 0 + Nat.ofDigitChars 10 minutes 0 ≤ 60 * 14) :
      IsZone (sign :: (hours ++ ':' :: minutes))

namespace Spelling

/-- The label of the rows that the shape asks for. -/
def label (s : Spelling) : CalendarShape → List Char
  | .date => signed s.negative s.year ++ '-' :: (s.month ++ '-' :: (s.day ++ s.zone))
  | .yearMonth => signed s.negative s.year ++ '-' :: (s.month ++ s.zone)
  | .year => signed s.negative s.year ++ s.zone
  | .monthDay => '-' :: '-' :: (s.month ++ '-' :: (s.day ++ s.zone))
  | .month => '-' :: '-' :: (s.month ++ s.zone)
  | .day => '-' :: '-' :: '-' :: (s.day ++ s.zone)

/-- The year that is spelled. -/
def yearNumber (s : Spelling) : Int :=
  if s.negative then -(Nat.ofDigitChars 10 s.year 0 : Int) else Nat.ofDigitChars 10 s.year 0

/-- The fields that the label stands for. -/
def fields (s : Spelling) (shape : CalendarShape) : CalendarFields where
  year := if shape.hasYear then some s.yearNumber else none
  month := if shape.hasMonth then some (Nat.ofDigitChars 10 s.month 0) else none
  day := if shape.hasDay then some (Nat.ofDigitChars 10 s.day 0) else none

/-- The same month and day, but the year with its own sign and its own digits, of which there are
four at least, and no time zone. -/
def canonical (s : Spelling) : Spelling where
  negative := s.yearNumber < 0
  year := paddedDigits 4 s.yearNumber.natAbs
  month := s.month
  day := s.day

/-- The rows that the shape asks for have the right characters and spell months and days.  A year
has four digits at least; that more must not begin with a zero is not asked. -/
structure IsWellFormed (s : Spelling) (shape : CalendarShape) : Prop where
  year : shape.hasYear = true → 4 ≤ s.year.length ∧ ∀ c ∈ s.year, c.isDigit = true
  month : shape.hasMonth = true → IsTwoDigits 12 s.month
  day : shape.hasDay = true → IsTwoDigits 31 s.day
  zone : IsZone s.zone

variable {s : Spelling} {shape : CalendarShape}

lemma IsWellFormed.fields_month (h : s.IsWellFormed shape) :
    ∀ n ∈ (s.fields shape).month, 1 ≤ n ∧ n ≤ 12 := by
  intro n hn
  obtain ⟨hasked, heq⟩ := Option.ite_none_right_eq_some.1 hn
  obtain rfl := Option.some.inj heq
  exact (h.month hasked).range

lemma IsWellFormed.fields_day (h : s.IsWellFormed shape) :
    ∀ n ∈ (s.fields shape).day, 1 ≤ n ∧ n ≤ 31 := by
  intro n hn
  obtain ⟨hasked, heq⟩ := Option.ite_none_right_eq_some.1 hn
  obtain rfl := Option.some.inj heq
  exact (h.day hasked).range

end Spelling

variable {shape other : CalendarShape} {fields : CalendarFields} {s : Spelling}
  {cs ds rest label : List Char} {n bound : Nat} {negative : Bool} {year : Int}

/-! ## What is read is well formed -/

lemma readNat?_eq_some_iff :
    readNat? cs = some n ↔
      cs ≠ [] ∧ (∀ c ∈ cs, c.isDigit = true) ∧ Nat.ofDigitChars 10 cs 0 = n := by
  constructor
  · intro h
    rw [readNat?] at h
    split at h
    next hdigits =>
      obtain ⟨hne, hall⟩ := Bool.and_eq_true _ _ ▸ hdigits
      exact ⟨by simpa using hne, List.all_eq_true.1 hall, Option.some.inj h⟩
    next => cases h
  · rintro ⟨hne, hdigits, rfl⟩
    exact readNat?_of_isDigit hne hdigits

lemma readDash?_eq_some_iff : readDash? cs = some rest ↔ cs = '-' :: rest := by
  unfold readDash?
  split
  next more => rw [Option.some.injEq, List.cons.injEq, and_iff_right rfl]
  next hne => exact iff_of_false (Option.some_ne_none _).symm (hne rest)

lemma readTwoDigits?_eq_some_iff :
    readTwoDigits? cs = some (n, rest) ↔
      ∃ ds, (ds.length = 2 ∧ ∀ c ∈ ds, c.isDigit = true) ∧ Nat.ofDigitChars 10 ds 0 = n ∧
        cs = ds ++ rest := by
  constructor
  · intro h
    unfold readTwoDigits? at h
    split at h
    next tens units more =>
      obtain ⟨value, hvalue, heq⟩ := Option.map_eq_some_iff.1 h
      obtain ⟨rfl, rfl⟩ := Prod.mk.inj heq
      obtain ⟨-, hdigits, rfl⟩ := readNat?_eq_some_iff.1 hvalue
      exact ⟨[tens, units], ⟨rfl, hdigits⟩, rfl, rfl⟩
    next => cases h
  · rintro ⟨ds, ⟨hlength, hdigits⟩, rfl, rfl⟩
    obtain ⟨tens, units, rfl⟩ := List.length_eq_two.1 hlength
    rw [List.cons_append, List.cons_append, readTwoDigits?, List.nil_append,
      readNat?_of_isDigit (List.cons_ne_nil _ _) hdigits]
    rfl

lemma readMonth?_spelled (h : readMonth? cs = some (n, rest)) :
    ∃ ds, IsTwoDigits 12 ds ∧ Nat.ofDigitChars 10 ds 0 = n ∧ cs = ds ++ rest := by
  have hrange := readMonth?_real h
  rw [readMonth?, Option.filter_eq_some_iff] at h
  obtain ⟨ds, ⟨hlength, hdigits⟩, rfl, rfl⟩ := readTwoDigits?_eq_some_iff.1 h.1
  exact ⟨ds, ⟨hlength, hdigits, hrange⟩, rfl, rfl⟩

lemma readDay?_spelled (hbound : bound ≤ 31) (h : readDay? bound cs = some (n, rest)) :
    ∃ ds, IsTwoDigits 31 ds ∧ Nat.ofDigitChars 10 ds 0 = n ∧ cs = ds ++ rest := by
  have hrange := readDay?_real h
  rw [readDay?, Option.filter_eq_some_iff] at h
  obtain ⟨ds, ⟨hlength, hdigits⟩, rfl, rfl⟩ := readTwoDigits?_eq_some_iff.1 h.1
  exact ⟨ds, ⟨hlength, hdigits, hrange.1, Nat.le_trans hrange.2 hbound⟩, rfl, rfl⟩

lemma readYear?_spelled (h : readYear? cs = some (year, rest)) :
    ∃ s : Spelling, (4 ≤ s.year.length ∧ ∀ c ∈ s.year, c.isDigit = true) ∧
      s.yearNumber = year ∧ (year.natAbs : Int) ≤ Integer.greatest ∧
      cs = signed s.negative s.year ++ rest := by
  unfold readYear? at h
  split at h
  next negative unsigned hsign =>
    have hcs : cs = signed negative unsigned := by
      split at hsign
      next =>
        obtain ⟨rfl, rfl⟩ := Prod.mk.inj hsign
        rfl
      next =>
        obtain ⟨rfl, rfl⟩ := Prod.mk.inj hsign
        rfl
    dsimp only at h
    split at h
    next => cases h
    next hlong =>
      obtain ⟨magnitude, hmagnitude, hfits⟩ := Option.bind_eq_some_iff.1 h
      obtain ⟨-, hdigits, rfl⟩ := readNat?_eq_some_iff.1 hmagnitude
      split at hfits
      next hle =>
        obtain ⟨rfl, rfl⟩ := Prod.mk.inj (Option.some.inj hfits)
        refine ⟨{ negative := negative, year := unsigned.takeWhile Char.isDigit },
          ⟨?_, hdigits⟩, rfl, ?_, ?_⟩
        · exact Nat.not_lt.1 fun hshort => hlong (.inl hshort)
        · split <;> omega
        · rw [hcs]
          cases negative with
          | true => exact congrArg ('-' :: ·) List.takeWhile_append_dropWhile.symm
          | false => exact List.takeWhile_append_dropWhile.symm
      next => cases hfits

/-- What is read as a time zone is one, and only nothing at all is read as none. -/
lemma readZone?_spelled {zone : Option Int} (h : readZone? cs = some zone) :
    IsZone cs ∧ (zone = none ↔ cs = []) := by
  unfold readZone? at h
  split at h
  next =>
    obtain rfl := Option.some.inj h
    exact ⟨.absent, iff_of_true rfl rfl⟩
  next =>
    obtain rfl := Option.some.inj h
    exact ⟨.utc, by simp⟩
  next sign rest _ =>
    simp only [bind, Option.bind_eq_some_iff] at h
    obtain ⟨⟨hours, more⟩, hhours, h⟩ := h
    obtain ⟨hourDigits, hhourDigits, rfl, rfl⟩ := readTwoDigits?_eq_some_iff.1 hhours
    dsimp only at h
    split at h
    next =>
      obtain ⟨⟨minutes, more⟩, hminutes, h⟩ := Option.bind_eq_some_iff.1 h
      obtain ⟨minuteDigits, hminuteDigits, rfl, rfl⟩ := readTwoDigits?_eq_some_iff.1 hminutes
      split at h
      next hrange =>
        obtain ⟨hempty, hrange⟩ := hrange
        obtain rfl := List.isEmpty_iff.1 hempty
        rw [List.append_nil]
        have hsome : (sign = '+' ∨ sign = '-') ∧ zone ≠ none := by
          split at h
          next hplus => exact ⟨.inl hplus, Option.some.inj h ▸ Option.some_ne_none _⟩
          next =>
            split at h
            next hminus => exact ⟨.inr hminus, Option.some.inj h ▸ Option.some_ne_none _⟩
            next => cases h
        exact ⟨.offset sign _ _ hsome.1 hhourDigits hminuteDigits hrange,
          iff_of_false hsome.2 (List.cons_ne_nil _ _)⟩
      next => cases h
    next => cases h

/-- The fields are put together from what the rows spell. -/
lemma readFields?_spelled (h : readFields? shape cs = some (fields, rest)) (hrest : IsZone rest) :
    ∃ s : Spelling, s.IsWellFormed shape ∧ s.zone = rest ∧ s.label shape = cs ∧
      s.fields shape = fields ∧
      ∀ year ∈ fields.year, (year.natAbs : Int) ≤ Integer.greatest := by
  cases shape with
  | date =>
    simp only [readFields?, bind, Option.bind_eq_some_iff, readDash?_eq_some_iff] at h
    obtain ⟨⟨year, _⟩, hyear, _, rfl, ⟨month, _⟩, hmonth, _, rfl, ⟨day, more⟩, hday, heq⟩ := h
    obtain ⟨rfl, rfl⟩ := Prod.mk.inj (Option.some.inj heq)
    obtain ⟨s, hyears, rfl, hgreatest, rfl⟩ := readYear?_spelled hyear
    obtain ⟨months, hmonths, rfl, rfl⟩ := readMonth?_spelled hmonth
    obtain ⟨days, hdays, rfl, rfl⟩ := readDay?_spelled (monthLength_le _ _) hday
    exact ⟨{ s with month := months, day := days, zone := more },
      ⟨fun _ => hyears, fun _ => hmonths, fun _ => hdays, hrest⟩, rfl, rfl, rfl,
      by simpa using hgreatest⟩
  | yearMonth =>
    simp only [readFields?, bind, Option.bind_eq_some_iff, readDash?_eq_some_iff] at h
    obtain ⟨⟨year, _⟩, hyear, _, rfl, ⟨month, more⟩, hmonth, heq⟩ := h
    obtain ⟨rfl, rfl⟩ := Prod.mk.inj (Option.some.inj heq)
    obtain ⟨s, hyears, rfl, hgreatest, rfl⟩ := readYear?_spelled hyear
    obtain ⟨months, hmonths, rfl, rfl⟩ := readMonth?_spelled hmonth
    exact ⟨{ s with month := months, zone := more },
      ⟨fun _ => hyears, fun _ => hmonths, (absurd · Bool.false_ne_true), hrest⟩, rfl, rfl, rfl,
      by simpa using hgreatest⟩
  | year =>
    simp only [readFields?, bind, Option.bind_eq_some_iff] at h
    obtain ⟨⟨year, more⟩, hyear, heq⟩ := h
    obtain ⟨rfl, rfl⟩ := Prod.mk.inj (Option.some.inj heq)
    obtain ⟨s, hyears, rfl, hgreatest, rfl⟩ := readYear?_spelled hyear
    exact ⟨{ s with zone := more },
      ⟨fun _ => hyears, (absurd · Bool.false_ne_true), (absurd · Bool.false_ne_true), hrest⟩,
      rfl, rfl, rfl, by simpa using hgreatest⟩
  | monthDay =>
    simp only [readFields?, bind, Option.bind_eq_some_iff, readDash?_eq_some_iff] at h
    obtain ⟨_, rfl, _, rfl, ⟨month, _⟩, hmonth, _, rfl, ⟨day, more⟩, hday, heq⟩ := h
    obtain ⟨rfl, rfl⟩ := Prod.mk.inj (Option.some.inj heq)
    obtain ⟨months, hmonths, rfl, rfl⟩ := readMonth?_spelled hmonth
    obtain ⟨days, hdays, rfl, rfl⟩ := readDay?_spelled (monthLength_le _ _) hday
    exact ⟨{ month := months, day := days, zone := more },
      ⟨(absurd · Bool.false_ne_true), fun _ => hmonths, fun _ => hdays, hrest⟩, rfl, rfl, rfl,
      fun _ h => absurd h (Option.not_mem_none _)⟩
  | month =>
    simp only [readFields?, bind, Option.bind_eq_some_iff, readDash?_eq_some_iff] at h
    obtain ⟨_, rfl, _, rfl, ⟨month, more⟩, hmonth, heq⟩ := h
    obtain ⟨rfl, rfl⟩ := Prod.mk.inj (Option.some.inj heq)
    obtain ⟨months, hmonths, rfl, rfl⟩ := readMonth?_spelled hmonth
    exact ⟨{ month := months, zone := more },
      ⟨(absurd · Bool.false_ne_true), fun _ => hmonths, (absurd · Bool.false_ne_true), hrest⟩,
      rfl, rfl, rfl, fun _ h => absurd h (Option.not_mem_none _)⟩
  | day =>
    simp only [readFields?, bind, Option.bind_eq_some_iff, readDash?_eq_some_iff] at h
    obtain ⟨_, rfl, _, rfl, _, rfl, ⟨day, more⟩, hday, heq⟩ := h
    obtain ⟨rfl, rfl⟩ := Prod.mk.inj (Option.some.inj heq)
    obtain ⟨days, hdays, rfl, rfl⟩ := readDay?_spelled (Nat.le_refl 31) hday
    exact ⟨{ day := days, zone := more },
      ⟨(absurd · Bool.false_ne_true), (absurd · Bool.false_ne_true), fun _ => hdays, hrest⟩,
      rfl, rfl, rfl, fun _ h => absurd h (Option.not_mem_none _)⟩

/-- **A label that is read is well formed.** -/
theorem read?_spelled {zone : Option Int} (h : read? shape label = some (fields, zone)) :
    ∃ s : Spelling, s.IsWellFormed shape ∧ (zone = none ↔ s.zone = []) ∧ s.label shape = label ∧
      s.fields shape = fields ∧
      ∀ year ∈ fields.year, (year.natAbs : Int) ≤ Integer.greatest := by
  simp only [read?, bind, Option.bind_eq_some_iff] at h
  obtain ⟨⟨_, rest⟩, hfields, _, hzone, heq⟩ := h
  obtain ⟨rfl, rfl⟩ := Prod.mk.inj (Option.some.inj heq)
  obtain ⟨hwell, hnone⟩ := readZone?_spelled hzone
  obtain ⟨s, hs, rfl, hlabel⟩ := readFields?_spelled hfields hwell
  exact ⟨s, hs, hnone, hlabel⟩

/-! ## One scan for all shapes -/

/-- Takes a year off the front of a label, whatever zeros it begins with. -/
def scanYear? (cs : List Char) : Option (Int × List Char) := do
  let (negative, unsigned) := match cs with
    | '-' :: rest => (true, rest)
    | _ => (false, cs)
  let ds := unsigned.takeWhile Char.isDigit
  if ds.length < 4 then none
  else
    let magnitude ← readNat? ds
    if (magnitude : Int) ≤ Integer.greatest then
      some (if negative then -magnitude else magnitude, unsigned.dropWhile Char.isDigit)
    else none

/-- The first stage: the year, or as many dashes as stand for one.  The dash before the next field
is not among them. -/
def scanFront? (shape : CalendarShape) (cs : List Char) : Option (Option Int × List Char) :=
  match shape with
  | .date | .yearMonth | .year => (scanYear? cs).map fun (year, rest) => (some year, rest)
  | .monthDay | .month => (readDash? cs).map (none, ·)
  | .day => ((readDash? cs).bind readDash?).map (none, ·)

/-- The other stages: a dash and two digits, if they are asked for. -/
def scanNumber? (asked : Bool) (cs : List Char) : Option (Option Nat × List Char) :=
  if asked then
    ((readDash? cs).bind readTwoDigits?).map fun (number, rest) => (some number, rest)
  else some (none, cs)

/-- The fields of a label that ends behind the last of them. -/
def scanFields? (shape : CalendarShape) (label : List Char) : Option CalendarFields := do
  let (year, rest) ← scanFront? shape label
  let (month, rest) ← scanNumber? shape.hasMonth rest
  let (day, rest) ← scanNumber? shape.hasDay rest
  if rest.isEmpty then some ⟨year, month, day⟩ else none

namespace Spelling

/-- What the first stage takes off. -/
def front (s : Spelling) (shape : CalendarShape) : List Char :=
  if shape.hasYear then signed s.negative s.year
  else if shape.hasMonth then ['-'] else ['-', '-']

/-- A row that the shape asks for, with a dash in front. -/
def dashed (asked : Bool) (ds : List Char) : List Char :=
  if asked then '-' :: ds else []

/-- The stages of a label. -/
lemma label_eq (s : Spelling) (shape : CalendarShape) :
    s.label shape = s.front shape ++
      (dashed shape.hasMonth s.month ++ (dashed shape.hasDay s.day ++ s.zone)) := by
  cases shape <;> simp [label, front, dashed, CalendarShape.hasYear, CalendarShape.hasMonth,
    CalendarShape.hasDay]

end Spelling

open Spelling

lemma IsZone.head?_isDigit (h : IsZone cs) : ∀ c ∈ cs.head?, c.isDigit = false := by
  cases h with
  | absent => exact nofun
  | utc => simp
  | offset sign _ _ hsign => rcases hsign with rfl | rfl <;> simp

/-- No digit follows a row before the first dash or the time zone. -/
lemma head?_dashed_append {asked : Bool} (h : ∀ c ∈ rest.head?, c.isDigit = false) :
    ∀ c ∈ (dashed asked ds ++ rest).head?, c.isDigit = false := by
  cases asked with
  | true =>
    intro c hc
    obtain rfl := Option.some.inj hc
    decide
  | false => exact h

lemma scanYear?_signed (hlength : 4 ≤ ds.length) (hdigits : ∀ c ∈ ds, c.isDigit = true)
    (hrest : ∀ c ∈ rest.head?, c.isDigit = false) :
    scanYear? (signed negative ds ++ rest) =
      if (Nat.ofDigitChars 10 ds 0 : Int) ≤ Integer.greatest then
        some (if negative then -(Nat.ofDigitChars 10 ds 0 : Int) else Nat.ofDigitChars 10 ds 0, rest)
      else none := by
  obtain ⟨htake, hdrop⟩ := Positional.takeWhile_isDigit rest hdigits hrest
  have hne : ds ≠ [] := List.ne_nil_of_length_pos (by omega)
  have hread := readNat?_of_isDigit hne hdigits
  cases negative with
  | true =>
    rw [signed, if_pos rfl, List.cons_append, scanYear?]
    simp only [htake, hdrop, if_neg (Nat.not_lt.2 hlength), hread]
    rfl
  | false =>
    rw [signed, if_neg Bool.false_ne_true, scanYear?]
    · simp only [htake, hdrop, if_neg (Nat.not_lt.2 hlength), hread]
      rfl
    -- what begins with a digit has no minus sign in front
    · intro unsigned hminus
      obtain ⟨first, more, rfl⟩ := List.exists_cons_of_ne_nil hne
      obtain rfl := (List.cons.inj hminus).1
      exact absurd (hdigits _ List.mem_cons_self) (by decide)

lemma scanNumber?_dashed {asked : Bool}
    (h : asked = true → ds.length = 2 ∧ ∀ c ∈ ds, c.isDigit = true) (rest : List Char) :
    scanNumber? asked (dashed asked ds ++ rest) =
      some (if asked then some (Nat.ofDigitChars 10 ds 0) else none, rest) := by
  cases asked with
  | true =>
    have hread : readTwoDigits? (ds ++ rest) = some (Nat.ofDigitChars 10 ds 0, rest) :=
      readTwoDigits?_eq_some_iff.2 ⟨ds, h rfl, rfl, rfl⟩
    rw [dashed, if_pos rfl, List.cons_append, scanNumber?, if_pos rfl, readDash?, Option.bind_some,
      hread]
    rfl
  | false => rfl

/-- The first stage finds the year, if it is not too large for a word. -/
lemma scanFront?_front (h : s.IsWellFormed shape)
    (hrest : ∀ c ∈ rest.head?, c.isDigit = false) :
    scanFront? shape (s.front shape ++ rest) =
      if ∀ year ∈ (s.fields shape).year, (year.natAbs : Int) ≤ Integer.greatest then
        some ((s.fields shape).year, rest)
      else none := by
  have hnumber : (s.yearNumber.natAbs : Int) = Nat.ofDigitChars 10 s.year 0 := by
    rw [yearNumber]
    split <;> omega
  have hyear : shape.hasYear = true →
      (scanYear? (s.front shape ++ rest)).map (fun (year, rest) => (some year, rest)) =
        if ∀ year ∈ (s.fields shape).year, (year.natAbs : Int) ≤ Integer.greatest then
          some ((s.fields shape).year, rest)
        else none := by
    intro hasked
    obtain ⟨hlength, hdigits⟩ := h.year hasked
    rw [front, if_pos hasked, scanYear?_signed hlength hdigits hrest, Spelling.fields, hasked]
    simp only [if_true, Option.mem_def, Option.some.injEq, forall_eq', hnumber]
    split
    next => rfl
    next => rfl
  cases shape with
  | date | yearMonth | year => exact hyear rfl
  | monthDay | month | day => rw [if_pos nofun]; rfl

/-- **The fields of a label are found if it ends behind them**: there is no time zone, and the year
is not too large for a word. -/
theorem scanFields?_label (h : s.IsWellFormed shape) :
    scanFields? shape (s.label shape) =
      if s.zone = [] ∧ ∀ year ∈ (s.fields shape).year, (year.natAbs : Int) ≤ Integer.greatest then
        some (s.fields shape)
      else none := by
  have hrest := h.zone.head?_isDigit
  rw [scanFields?, label_eq, scanFront?_front h (head?_dashed_append (head?_dashed_append hrest))]
  split
  next hfits =>
    have hmonth := scanNumber?_dashed (fun hasked => ⟨(h.month hasked).1, (h.month hasked).2⟩)
      (dashed shape.hasDay s.day ++ s.zone)
    have hday := scanNumber?_dashed (fun hasked => ⟨(h.day hasked).1, (h.day hasked).2⟩) s.zone
    simp only [bind, Option.bind_some, hmonth, hday, List.isEmpty_iff, and_iff_left hfits]
    rfl
  next hlarge => rw [if_neg fun hfound => hlarge hfound.2]; rfl

/-! ## The way back -/

/-- What is written has exactly the fields of its shape. -/
lemma isSome_of_text? (h : text? shape fields = some label) :
    fields.year.isSome = shape.hasYear ∧ fields.month.isSome = shape.hasMonth ∧
      fields.day.isSome = shape.hasDay := by
  unfold text? at h
  split at h
  case h_7 => cases h
  all_goals exact ⟨rfl, rfl, rfl⟩

/-- **No fields are written in two shapes.** -/
theorem text?_eq_none_of_ne (h : text? shape fields = some label) (hne : other ≠ shape) :
    text? other fields = none := by
  rw [Option.eq_none_iff_forall_ne_some]
  intro found hfound
  obtain ⟨hyear, hmonth, hday⟩ := isSome_of_text? h
  obtain ⟨hyear', hmonth', hday'⟩ := isSome_of_text? hfound
  exact hne (CalendarShape.eq_of_has_eq (hyear'.symm.trans hyear) (hmonth'.symm.trans hmonth)
    (hday'.symm.trans hday))

/-- A row of digits is told from its sign. -/
lemma signed_eq_signed_iff {negative' : Bool} (hcs : ∀ c ∈ cs, c.isDigit = true)
    (hds : ∀ c ∈ ds, c.isDigit = true) :
    signed negative cs = signed negative' ds ↔ negative = negative' ∧ cs = ds := by
  have hdash : ∀ row : List Char, (∀ c ∈ row, c.isDigit = true) → ∀ more, row ≠ '-' :: more := by
    rintro row hrow more rfl
    exact absurd (hrow _ List.mem_cons_self) (by decide)
  cases negative <;> cases negative' <;>
    simp [signed, hdash cs hcs, fun more => (hdash ds hds more).symm]

/-- A month or a day is written as it was spelled. -/
lemma IsTwoDigits.paddedDigits_eq (h : IsTwoDigits bound ds) :
    paddedDigits 2 (Nat.ofDigitChars 10 ds 0) = ds := by
  have heq := paddedDigits_ofDigitChars (List.ne_nil_of_length_pos (by rw [h.length_eq]; decide))
    h.isDigit
  rwa [h.length_eq] at heq

/-- The fields of a well-formed label are written in their canonical spelling. -/
lemma text?_fields (h : s.IsWellFormed shape) :
    text? shape (s.fields shape) = some (s.canonical.label shape) := by
  have hmonth := fun hasked => (h.month hasked).paddedDigits_eq
  have hday := fun hasked => (h.day hasked).paddedDigits_eq
  have hyear : yearText s.yearNumber = signed s.canonical.negative s.canonical.year := rfl
  cases shape with
  | date =>
    refine congrArg some ?_
    rw [hmonth rfl, hday rfl, hyear, List.append_assoc]
    simp only [Spelling.label, canonical, List.append_nil, List.cons_append]
  | yearMonth =>
    refine congrArg some ?_
    rw [hmonth rfl, hyear]
    simp only [Spelling.label, canonical, List.append_nil]
  | year =>
    refine congrArg some ?_
    rw [hyear]
    simp only [Spelling.label, canonical, List.append_nil]
  | monthDay =>
    refine congrArg some ?_
    rw [hmonth rfl, hday rfl]
    simp only [Spelling.label, canonical, List.append_nil, List.cons_append]
  | month =>
    refine congrArg some ?_
    rw [hmonth rfl]
    simp only [Spelling.label, canonical, List.append_nil]
  | day =>
    refine congrArg some ?_
    rw [hday rfl]
    simp only [Spelling.label, canonical, List.append_nil]

/-- **The fields of a well-formed label without a time zone are written as the same label exactly if
the year has its own digits, padded to four, and zero has no sign.** -/
theorem text?_fields_eq_label_iff (h : s.IsWellFormed shape) (hzone : s.zone = []) :
    text? shape (s.fields shape) = some (s.label shape) ↔
      ∀ year ∈ (s.fields shape).year,
        s.year = paddedDigits 4 year.natAbs ∧ (year = 0 → s.negative = false) := by
  have hsame : s.canonical.label shape = s.label shape ↔
      s.canonical.front shape = s.front shape := by
    rw [label_eq, label_eq, hzone]
    exact List.append_left_inj _
  rw [text?_fields h, Option.some.injEq, hsame, front, front, Spelling.fields]
  cases hasked : shape.hasYear with
  | true =>
    have hsign : decide (s.yearNumber < 0) = s.negative ↔
        (s.yearNumber = 0 → s.negative = false) := by
      rw [yearNumber]
      cases s.negative with
      | true => simp [Nat.pos_iff_ne_zero]
      | false => simp
    simp only [if_true, Option.mem_def, Option.some.injEq, forall_eq', canonical,
      signed_eq_signed_iff (fun _ hc => isDigit_of_mem_paddedDigits hc) (h.year hasked).2, hsign]
    rw [and_comm, eq_comm (a := s.year)]
  | false => simp

end Calendar

end QuadBase.Value
