import QuadBase.Proofs.Code.Canonical
import QuadBase.Proofs.Value.CalendarLabels

/-!
# Packed calendar values

A calendar label is packed exactly if it has no time zone and its year, if it has one, is less than
fifteen bits and spelled the canonical way (`calendar_labels`).

The program does not read a label once.  The parser of the datatype is only asked whether it accepts
the label; then one scan for all datatypes takes the fields off the label once more, they are shifted
into a payload, and the label is written from the fields that are masked out of the payload.
`packAccepted?` takes these steps for any such parser.

* `packFields?_eq`, `unpackFields_eq` — **the fields do not overlap in the payload.**
* `packAccepted?_label` — a well-formed label is packed if its fields are, and if they are written as
  the same label.
* `packAccepted?_eq_pack?` — with any parser that knows which dates exist this is `pack?`.
-/

namespace QuadBase.Code.Family

open QuadBase.Value QuadBase.Value.Calendar

variable {payload : Nat} {shape : CalendarShape} {label : String} {fields : CalendarFields}
  {accepts : CalendarShape → String → Bool}

/-! ## Fields in a payload -/

/-- Shifts the fields into their places. -/
def packFields? (fields : CalendarFields) : Option Nat :=
  let day := fields.day.getD 0
  let month := fields.month.getD 0
  if 31 < day ∨ 12 < month then none
  else match fields.year with
    | none => some (day ||| month <<< 5)
    | some year =>
      if year.natAbs < yearBias then some (day ||| month <<< 5 ||| (year + yearBias).toNat <<< 9)
      else none

/-- Masks the fields out. -/
def unpackFields (payload : Nat) : CalendarFields :=
  let day := payload &&& 0x1F
  let month := (payload >>> 5) &&& 0xF
  let year := payload >>> 9
  { year := if year ≠ 0 then some ((year : Int) - yearBias) else none
    month := if month ≠ 0 then some month else none
    day := if day ≠ 0 then some day else none }

/-- Parts that do not overlap are added. -/
lemma or_shiftLeft_eq {lower upper width : Nat} (h : lower < 2 ^ width) :
    lower ||| upper <<< width = lower + 2 ^ width * upper := by
  rw [Nat.or_comm, ← Nat.shiftLeft_add_eq_or_of_lt h, Nat.shiftLeft_eq, Nat.mul_comm, Nat.add_comm]

lemma packFields?_eq (fields : CalendarFields) : packFields? fields = calendarPayload? fields := by
  obtain ⟨year, month, day⟩ := fields
  rw [packFields?, calendarPayload?]
  dsimp only
  split
  next => rfl
  next hrange =>
    have hday : day.getD 0 < 2 ^ 5 := by omega
    have hlower : day.getD 0 + 2 ^ 5 * month.getD 0 < 2 ^ 9 := by omega
    rw [or_shiftLeft_eq hday]
    cases year with
    | none => rfl
    | some year =>
      dsimp only
      rw [or_shiftLeft_eq hlower]
      rfl

lemma unpackFields_eq (payload : Nat) : unpackFields payload = calendarFields payload := by
  have hday : payload &&& 0x1F = payload % 32 := Nat.and_two_pow_sub_one_eq_mod payload 5
  have hmonth : (payload >>> 5) &&& 0xF = payload / 32 % 16 := by
    rw [Nat.shiftRight_eq_div_pow]
    exact Nat.and_two_pow_sub_one_eq_mod _ 4
  have hyear : payload >>> 9 = payload / 512 := Nat.shiftRight_eq_div_pow _ _
  rw [unpackFields, calendarFields, hday, hmonth, hyear]
  simp only [ne_eq, ite_not]

/-- The payload of fields as a sum. -/
lemma calendarPayload?_eq_some_iff :
    calendarPayload? fields = some payload ↔
      (∀ n ∈ fields.month, n ≤ 12) ∧ (∀ n ∈ fields.day, n ≤ 31) ∧
        (∀ year ∈ fields.year, year.natAbs < yearBias) ∧
        (payload : Int) = fields.day.getD 0 + 32 * fields.month.getD 0 +
          512 * fields.year.elim 0 (· + yearBias) := by
  obtain ⟨year, month, day⟩ := fields
  have hmonth : (∀ n ∈ month, n ≤ 12) ↔ month.getD 0 ≤ 12 := by cases month <;> simp
  have hday : (∀ n ∈ day, n ≤ 31) ↔ day.getD 0 ≤ 31 := by cases day <;> simp
  rw [calendarPayload?, hmonth, hday]
  dsimp only
  split
  next hrange => exact iff_of_false (Option.some_ne_none _).symm fun h => by omega
  next hrange =>
    rw [and_iff_right (by omega), and_iff_right (by omega)]
    cases year with
    | none =>
      rw [Option.elim_none, and_iff_right fun _ h => absurd h (Option.not_mem_none _),
        Option.some.injEq]
      omega
    | some year =>
      simp only [Option.mem_def, Option.some.injEq, forall_eq', Option.elim_some]
      split
      next h =>
        rw [Option.some.injEq]
        omega
      next h => exact iff_of_false (Option.some_ne_none _).symm fun hfits => h hfits.1

/-! ## Packing, step by step -/

/-- Packs a label that the parser of its datatype accepts.  What is packed must be unpacked again. -/
def packAccepted? (accepts : CalendarShape → String → Bool) (shape : CalendarShape)
    (label : String) : Option Nat :=
  if accepts shape label then
    ((scanFields? shape label.toList).bind packFields?).filter fun payload =>
      text? shape (unpackFields payload) == some label.toList
  else none

lemma packAccepted?_eq_some_iff :
    packAccepted? accepts shape label = some payload ↔
      accepts shape label = true ∧
        (∃ fields, scanFields? shape label.toList = some fields ∧
          calendarPayload? fields = some payload) ∧
        (calendar shape).unpack? payload = some label.toList := by
  rw [packAccepted?]
  split
  next haccepted =>
    rw [Option.filter_eq_some_iff, Option.bind_eq_some_iff, beq_iff_eq, unpackFields_eq,
      and_iff_right haccepted]
    simp only [packFields?_eq]
    rfl
  next hrefused => exact iff_of_false (Option.some_ne_none _).symm fun h => hrefused h.1

/-- A well-formed label is packed exactly if it ends behind its fields, and if its year is in range
and spelled the canonical way. -/
lemma packAccepted?_label {s : Spelling} (haccepted : accepts shape label = true)
    (hs : s.IsWellFormed shape) (hlabel : s.label shape = label.toList) :
    packAccepted? accepts shape label = some payload ↔
      s.zone = [] ∧
        (∀ year ∈ (s.fields shape).year, year.natAbs < yearBias ∧
          s.year = paddedDigits 4 year.natAbs ∧ (year = 0 → s.negative = false)) ∧
        (payload : Int) = (s.fields shape).day.getD 0 + 32 * (s.fields shape).month.getD 0 +
          512 * (s.fields shape).year.elim 0 (· + yearBias) := by
  have hfound : calendarPayload? (s.fields shape) = some payload →
      (calendar shape).unpack? payload = text? shape (s.fields shape) := fun hpayload =>
    congrArg (text? shape) (calendarFields_of_calendarPayload?
      (fun n hn => (hs.fields_month n hn).1) (fun n hn => (hs.fields_day n hn).1) hpayload)
  have hgreatest : Integer.greatest = 2 ^ 63 - 1 := rfl
  have hbias : yearBias = 2 ^ 14 := rfl
  rw [packAccepted?_eq_some_iff, ← hlabel, scanFields?_label hs, and_iff_right haccepted]
  constructor
  · rintro ⟨⟨fields, hscan, hpayload⟩, hunpack⟩
    obtain ⟨⟨hzone, -⟩, heq⟩ := Option.ite_none_right_eq_some.1 hscan
    obtain rfl := Option.some.inj heq
    rw [hfound hpayload, text?_fields_eq_label_iff hs hzone] at hunpack
    obtain ⟨-, -, hyear, hsum⟩ := calendarPayload?_eq_some_iff.1 hpayload
    exact ⟨hzone, fun year hmem => ⟨hyear year hmem, hunpack year hmem⟩, hsum⟩
  · rintro ⟨hzone, hyear, hsum⟩
    have hpayload := calendarPayload?_eq_some_iff.2 ⟨fun n hn => (hs.fields_month n hn).2,
      fun n hn => (hs.fields_day n hn).2, fun year hmem => (hyear year hmem).1, hsum⟩
    -- the scan also gives up at years that are too large for a word, but those are out of range
    have hword : ∀ year ∈ (s.fields shape).year, (year.natAbs : Int) ≤ Integer.greatest := by
      intro year hmem
      have hrange := (hyear year hmem).1
      omega
    refine ⟨⟨s.fields shape, if_pos ⟨hzone, hword⟩, hpayload⟩, ?_⟩
    rw [hfound hpayload, text?_fields_eq_label_iff hs hzone]
    exact fun year hmem => (hyear year hmem).2

/-- The scan takes fields that exist off the label that is written for them. -/
lemma scanFields?_text? {cs : List Char} (h : text? shape fields = some cs) (hreal : fields.Real)
    (hyear : ∀ year ∈ fields.year, (year.natAbs : Int) ≤ Integer.greatest) :
    scanFields? shape cs = some fields := by
  obtain ⟨s, hs, hzone, hlabel, hfields, hrange⟩ := read?_spelled (read?_text? h hreal hyear)
  rw [← hlabel, scanFields?_label hs, if_pos ⟨hzone.1 rfl, hfields ▸ hrange⟩, hfields]

/-- **Nothing but `pack?` is left of the steps**, if the parser accepts well-formed labels of dates
that exist only, and each of these in the spelling that is written for it. -/
theorem packAccepted?_eq_pack?
    (hsound : ∀ label, accepts shape label = true → ∃ s : Spelling, s.IsWellFormed shape ∧
      s.label shape = label.toList ∧ (s.fields shape).Real)
    (htext : ∀ fields (label : String), text? shape fields = some label.toList → fields.Real →
      (∀ year ∈ fields.year, (year.natAbs : Int) ≤ Integer.greatest) → accepts shape label = true)
    (label : String) : packAccepted? accepts shape label = (calendar shape).pack? label := by
  refine Option.ext fun payload => ?_
  rw [packAccepted?_eq_some_iff, pack?_eq_some_iff_canonical]
  constructor
  · rintro ⟨haccepted, ⟨fields, hscan, hpayload⟩, hunpack⟩
    obtain ⟨s, hs, hlabel, hreal⟩ := hsound label haccepted
    rw [← hlabel, scanFields?_label hs] at hscan
    obtain ⟨-, heq⟩ := Option.ite_none_right_eq_some.1 hscan
    obtain rfl := Option.some.inj heq
    refine ⟨calendarPayload?_lt hpayload, ?_, hunpack⟩
    rw [Canonical, calendarFields_of_calendarPayload? (fun n hn => (hreal.month n hn).1)
      (fun n hn => (hreal.day n hn).1) hpayload]
    exact hreal
  · rintro ⟨hlt, hreal, hunpack⟩
    exact ⟨htext _ label hunpack hreal (year_le hlt), ⟨_, scanFields?_text? hunpack hreal
      (year_le hlt), calendarPayload?_calendarFields hlt hreal⟩, hunpack⟩

/-- The reader of calendar labels as a parser. -/
def readable (shape : CalendarShape) (label : String) : Bool :=
  (read? shape label.toList).isSome

/-- It accepts well-formed labels of dates that exist only. -/
lemma exists_real_of_readable (h : readable shape label = true) :
    ∃ s : Spelling, s.IsWellFormed shape ∧ s.label shape = label.toList ∧
      (s.fields shape).Real := by
  obtain ⟨⟨fields, zone⟩, hread⟩ := Option.isSome_iff_exists.1 h
  obtain ⟨s, hs, -, hlabel, rfl, -⟩ := read?_spelled hread
  exact ⟨s, hs, hlabel, read?_real hread⟩

lemma exists_spelling_of_readable (h : readable shape label = true) :
    ∃ s : Spelling, s.IsWellFormed shape ∧ s.label shape = label.toList := by
  obtain ⟨s, hs, hlabel, -⟩ := exists_real_of_readable h
  exact ⟨s, hs, hlabel⟩

/-- What is written for fields that exist is accepted. -/
lemma readable_of_text? (h : text? shape fields = some label.toList) (hreal : fields.Real)
    (hyear : ∀ year ∈ fields.year, (year.natAbs : Int) ≤ Integer.greatest) :
    readable shape label = true :=
  Option.isSome_iff_exists.2 ⟨_, read?_text? h hreal hyear⟩

/-- **With the reader of calendar labels as parser**, nothing but `pack?` is left of the steps. -/
lemma packAccepted?_readable (shape : CalendarShape) (label : String) :
    packAccepted? readable shape label = (calendar shape).pack? label :=
  packAccepted?_eq_pack? (fun _ => exists_real_of_readable) (fun _ _ => readable_of_text?) label

/-- **A calendar label is packed exactly if it has no time zone, and its year, if it has one, is of
less than fifteen bits, in its own digits padded to four, and zero without a sign.**  This holds for
any parser that accepts well-formed labels only.  The payload has day, month and biased year side by
side, and no shape but its own has a label for it. -/
theorem calendar_labels
    (haccepts : ∀ shape label, accepts shape label = true →
      ∃ s : Spelling, s.IsWellFormed shape ∧ s.label shape = label.toList)
    (shape : CalendarShape) (label : String) :
    (accepts shape label = true →
      (∃ s : Spelling, s.IsWellFormed shape ∧ s.label shape = label.toList) ∧
      ∀ s : Spelling, s.IsWellFormed shape → s.label shape = label.toList → ∀ p,
        packAccepted? accepts shape label = some p ↔
          s.zone = [] ∧
            (∀ year ∈ (s.fields shape).year, year.natAbs < 2 ^ 14 ∧
              s.year = paddedDigits 4 year.natAbs ∧ (year = 0 → s.negative = false)) ∧
            (p : Int) = (s.fields shape).day.getD 0 + 32 * (s.fields shape).month.getD 0 +
              512 * (s.fields shape).year.elim 0 (· + 2 ^ 14)) ∧
    (∀ p, packAccepted? accepts shape label = some p →
      p < 2 ^ 24 ∧ (calendar shape).unpack? p = some label.toList ∧
        ∀ other, other ≠ shape → (calendar other).unpack? p = none) ∧
    packAccepted? readable shape label = (calendar shape).pack? label ∧
    timeOfDay.pack? label = none := by
  refine ⟨fun haccepted => ⟨haccepts shape label haccepted, fun s hs hlabel p =>
    packAccepted?_label haccepted hs hlabel⟩, fun p hp => ?_, packAccepted?_readable shape label, ?_⟩
  · obtain ⟨-, ⟨fields, -, hpayload⟩, hunpack⟩ := packAccepted?_eq_some_iff.1 hp
    exact ⟨calendarPayload?_lt hpayload, hunpack, fun other hne => text?_eq_none_of_ne hunpack hne⟩
  · rw [Option.eq_none_iff_forall_ne_some]
    intro p hp
    cases (pack?_eq_some_iff.1 hp).2.1

/-- The ides of March of the year 44 before year zero. -/
theorem calendar_labels_date :
    (∀ shape label, readable shape label = true →
      ∃ s : Spelling, s.IsWellFormed shape ∧ s.label shape = label.toList) ∧
    packAccepted? readable .date "-0044-03-15" = some (15 + 32 * 3 + 512 * (2 ^ 14 - 44)) ∧
    (calendar .monthDay).unpack? (15 + 32 * 3 + 512 * (2 ^ 14 - 44)) = none := by
  obtain ⟨hlabel, hpacked, -, -⟩ := calendar_labels
    (fun _ _ => exists_spelling_of_readable) .date "-0044-03-15"
  have hdate := ((hlabel (by decide)).2
    ⟨true, "0044".toList, "03".toList, "15".toList, []⟩
    ⟨fun _ => ⟨by decide, by simp⟩, fun _ => ⟨rfl, by simp, by decide⟩,
      fun _ => ⟨rfl, by simp, by decide⟩, .absent⟩ (by decide)
    (15 + 32 * 3 + 512 * (2 ^ 14 - 44))).2
    ⟨rfl, by decide, by decide⟩
  exact ⟨fun _ _ => exists_spelling_of_readable, hdate, (hpacked _ hdate).2.2 .monthDay (by decide)⟩

end QuadBase.Code.Family
