import QuadBase.Proofs.Value.Positional
import QuadBase.Value.Calendar

/-!
# Reading calendar labels back

A label is written for any fields that the shape asks for, but only fields that exist are read
(`CalendarFields.Real`).  For these, reading undoes writing (`Calendar.read?_text?`).
-/

namespace QuadBase.Value

/-- The days of the month of these fields, if the month is open. -/
def CalendarFields.dayBound (fields : CalendarFields) : Nat :=
  fields.month.elim 31 (Calendar.monthLength fields.year)

/-- Month and day exist, as far as they are given. -/
structure CalendarFields.Real (fields : CalendarFields) : Prop where
  month : ∀ month ∈ fields.month, 1 ≤ month ∧ month ≤ 12
  day : ∀ day ∈ fields.day, 1 ≤ day ∧ day ≤ fields.dayBound

namespace Calendar

variable {year : Int} {month day n : Nat} {rest cs : List Char}

/-! ## Parts of a label -/

lemma length_twoDigits (h : n < 100) : (paddedDigits 2 n).length = 2 := by
  rw [length_paddedDigits, Nat.max_eq_left ((digitCount_le_iff (by decide)).2 h)]

lemma readTwoDigits?_paddedDigits (h : n < 100) (rest : List Char) :
    readTwoDigits? (paddedDigits 2 n ++ rest) = some (n, rest) := by
  have hlength := length_twoDigits h
  have hread : readNat? (paddedDigits 2 n) = some n := readNat?_paddedDigits (by decide)
  match hdigits : paddedDigits 2 n, hlength with
  | [tens, units], _ =>
    rw [hdigits] at hread
    exact congrArg (Option.map fun m => (m, rest)) hread

lemma readMonth?_paddedDigits (h : 1 ≤ month ∧ month ≤ 12) (rest : List Char) :
    readMonth? (paddedDigits 2 month ++ rest) = some (month, rest) := by
  rw [readMonth?, readTwoDigits?_paddedDigits (by omega)]
  simp [h]

lemma readDay?_paddedDigits {length : Nat} (hlength : length ≤ 31) (h : 1 ≤ day ∧ day ≤ length)
    (rest : List Char) : readDay? length (paddedDigits 2 day ++ rest) = some (day, rest) := by
  rw [readDay?, readTwoDigits?_paddedDigits (by omega)]
  simp [h]

/-- The digits of a year, of which the first is zero only if there are four. -/
lemma head?_yearDigits (h : 4 < (paddedDigits 4 n).length) :
    (paddedDigits 4 n).head? ≠ some '0' := by
  rw [length_paddedDigits] at h
  rw [paddedDigits_of_le (by omega)]
  refine head?_digits ?_
  rcases Nat.eq_zero_or_pos n with rfl | hpos
  · have hone : digitCount 0 = 1 := rfl
    omega
  · exact hpos

/-- A year is told from what follows it. -/
lemma readYear?_signed (h : (n : Int) ≤ Integer.greatest) (negative : Bool)
    (hrest : ∀ c ∈ rest.head?, c.isDigit = false) :
    readYear? (signed negative (paddedDigits 4 n) ++ rest) =
      some (if negative then -(n : Int) else n, rest) := by
  obtain ⟨htake, hdrop⟩ := Positional.takeWhile_isDigit rest
    (fun c (hc : c ∈ paddedDigits 4 n) => isDigit_of_mem_paddedDigits hc) hrest
  have hread : readNat? (paddedDigits 4 n) = some n := readNat?_paddedDigits (by decide)
  have hdigits : ¬ ((paddedDigits 4 n).length < 4 ∨
      (4 < (paddedDigits 4 n).length ∧ (paddedDigits 4 n).head? = some '0')) := by
    have hlength := length_paddedDigits 4 n
    rintro (hshort | ⟨hlong, hzero⟩)
    · omega
    · exact head?_yearDigits hlong hzero
  cases negative with
  | true =>
    rw [signed, if_pos rfl, List.cons_append, readYear?]
    simp only [htake, hdrop, if_neg hdigits, hread]
    simp [h]
  | false =>
    rw [signed, if_neg Bool.false_ne_true, readYear?]
    · simp only [htake, hdrop, if_neg hdigits, hread]
      simp [h]
    · intro unsigned hminus
      have hlength := length_paddedDigits 4 n
      cases hfirst : paddedDigits 4 n with
      | nil =>
        rw [hfirst, List.length_nil] at hlength
        omega
      | cons first more =>
        rw [hfirst] at hminus
        obtain rfl := (List.cons.inj hminus).1
        have hdash : ('-' : Char).isDigit = true :=
          isDigit_of_mem_paddedDigits (hfirst ▸ List.mem_cons_self)
        exact absurd hdash (by decide)

lemma readYear?_yearText (h : (year.natAbs : Int) ≤ Integer.greatest)
    (hrest : ∀ c ∈ rest.head?, c.isDigit = false) :
    readYear? (yearText year ++ rest) = some (year, rest) := by
  rw [yearText, readYear?_signed h _ hrest]
  congr 2
  simp only [decide_eq_true_eq]
  split <;> omega

lemma monthLength_le (year : Option Int) (month : Nat) : monthLength year month ≤ 31 := by
  rw [monthLength]
  split
  · split <;> decide
  · split <;> decide

/-! ## Fields -/

variable {shape : CalendarShape} {fields : CalendarFields} {label : List Char}

/-- The fields of a label are told from what follows it. -/
theorem readFields?_text? (h : text? shape fields = some label) (hreal : fields.Real)
    (hyear : ∀ year ∈ fields.year, (year.natAbs : Int) ≤ Integer.greatest)
    (hrest : ∀ c ∈ rest.head?, c.isDigit = false) :
    readFields? shape (label ++ rest) = some (fields, rest) := by
  obtain ⟨hmonth, hday⟩ := hreal
  have hdash : ∀ (more : List Char), ∀ c ∈ ('-' :: more).head?, c.isDigit = false := by
    intro more c hc
    obtain rfl := Option.some.inj hc
    decide
  unfold text? at h
  split at h
  next year month day =>
    rw [← Option.some.inj h]
    simp only [readFields?, bind, List.append_assoc, List.cons_append,
      readYear?_yearText (hyear year rfl) (hdash _), readDash?, Option.bind_some,
      readMonth?_paddedDigits (hmonth month rfl),
      readDay?_paddedDigits (monthLength_le _ _) (hday day rfl)]
  next year month =>
    rw [← Option.some.inj h]
    simp only [readFields?, bind, List.append_assoc, List.cons_append,
      readYear?_yearText (hyear year rfl) (hdash _), readDash?, Option.bind_some,
      readMonth?_paddedDigits (hmonth month rfl)]
  next year =>
    rw [← Option.some.inj h]
    simp only [readFields?, bind, readYear?_yearText (hyear year rfl) hrest, Option.bind_some]
  next month day =>
    rw [← Option.some.inj h]
    simp only [readFields?, bind, List.append_assoc, List.cons_append, readDash?,
      Option.bind_some, readMonth?_paddedDigits (hmonth month rfl),
      readDay?_paddedDigits (monthLength_le _ _) (hday day rfl)]
  next month =>
    rw [← Option.some.inj h]
    simp only [readFields?, bind, List.cons_append, readDash?, Option.bind_some,
      readMonth?_paddedDigits (hmonth month rfl)]
  next day =>
    rw [← Option.some.inj h]
    simp only [readFields?, bind, List.cons_append, readDash?, Option.bind_some,
      readDay?_paddedDigits (Nat.le_refl 31) (hday day rfl)]
  next => cases h

/-- **Reading undoes writing**, for fields that exist. -/
theorem read?_text? (h : text? shape fields = some label) (hreal : fields.Real)
    (hyear : ∀ year ∈ fields.year, (year.natAbs : Int) ≤ Integer.greatest) :
    read? shape label = some (fields, none) := by
  have hfields : readFields? shape (label ++ []) = some (fields, []) :=
    readFields?_text? h hreal hyear nofun
  rw [List.append_nil] at hfields
  rw [read?, hfields]
  rfl

/-! ## What is read exists -/

lemma readMonth?_real {found : Nat × List Char} (h : readMonth? cs = some found) :
    1 ≤ found.1 ∧ found.1 ≤ 12 := by
  rw [readMonth?, Option.filter_eq_some_iff] at h
  simpa using h.2

lemma readDay?_real {length : Nat} {found : Nat × List Char}
    (h : readDay? length cs = some found) : 1 ≤ found.1 ∧ found.1 ≤ length := by
  rw [readDay?, Option.filter_eq_some_iff] at h
  simpa using h.2

/-- **Only fields that exist are read.** -/
theorem readFields?_real (h : readFields? shape cs = some (fields, rest)) : fields.Real := by
  cases shape with
  | date =>
    simp only [readFields?, bind, Option.bind_eq_some_iff] at h
    obtain ⟨year, -, _, -, month, hmonth, _, -, day, hday, heq⟩ := h
    obtain rfl := (Prod.mk.inj (Option.some.inj heq)).1
    exact ⟨by simpa using readMonth?_real hmonth,
      by simpa [CalendarFields.dayBound] using readDay?_real hday⟩
  | yearMonth =>
    simp only [readFields?, bind, Option.bind_eq_some_iff] at h
    obtain ⟨year, -, _, -, month, hmonth, heq⟩ := h
    obtain rfl := (Prod.mk.inj (Option.some.inj heq)).1
    exact ⟨by simpa using readMonth?_real hmonth, nofun⟩
  | monthDay =>
    simp only [readFields?, bind, Option.bind_eq_some_iff] at h
    obtain ⟨_, -, _, -, month, hmonth, _, -, day, hday, heq⟩ := h
    obtain rfl := (Prod.mk.inj (Option.some.inj heq)).1
    exact ⟨by simpa using readMonth?_real hmonth,
      by simpa [CalendarFields.dayBound] using readDay?_real hday⟩
  | year =>
    simp only [readFields?, bind, Option.bind_eq_some_iff] at h
    obtain ⟨year, -, heq⟩ := h
    obtain rfl := (Prod.mk.inj (Option.some.inj heq)).1
    exact ⟨nofun, nofun⟩
  | month =>
    simp only [readFields?, bind, Option.bind_eq_some_iff] at h
    obtain ⟨_, -, _, -, month, hmonth, heq⟩ := h
    obtain rfl := (Prod.mk.inj (Option.some.inj heq)).1
    exact ⟨by simpa using readMonth?_real hmonth, nofun⟩
  | day =>
    simp only [readFields?, bind, Option.bind_eq_some_iff] at h
    obtain ⟨_, -, _, -, _, -, day, hday, heq⟩ := h
    obtain rfl := (Prod.mk.inj (Option.some.inj heq)).1
    exact ⟨nofun, by simpa [CalendarFields.dayBound] using readDay?_real hday⟩

theorem read?_real {zone : Option Int} (h : read? shape label = some (fields, zone)) :
    fields.Real := by
  simp only [read?, bind, Option.bind_eq_some_iff] at h
  obtain ⟨found, hfields, _, -, heq⟩ := h
  obtain rfl := (Prod.mk.inj (Option.some.inj heq)).1
  exact readFields?_real hfields

/-! ## The length of a label -/

lemma length_yearText_le (h : (year.natAbs : Int) ≤ Integer.greatest) :
    (yearText year).length ≤ 20 := by
  have hsigned := length_signed_le (year < 0) (paddedDigits 4 year.natAbs)
  have hcount : digitCount year.natAbs ≤ 19 := by
    rw [digitCount_le_iff (by decide)]
    have hgreatest : Integer.greatest = 2 ^ 63 - 1 := rfl
    omega
  rw [length_paddedDigits] at hsigned
  exact Nat.le_trans hsigned (by omega)

lemma dayBound_le (fields : CalendarFields) : fields.dayBound ≤ 31 := by
  rw [CalendarFields.dayBound]
  cases fields.month with
  | none => exact Nat.le_refl 31
  | some month => exact monthLength_le _ _

lemma length_text?_le (h : text? shape fields = some label) (hreal : fields.Real)
    (hyear : ∀ year ∈ fields.year, (year.natAbs : Int) ≤ Integer.greatest) :
    label.length ≤ 26 := by
  have hyears : ∀ year ∈ fields.year, (yearText year).length ≤ 20 := fun year hmem =>
    length_yearText_le (hyear year hmem)
  have hmonths : ∀ month ∈ fields.month, (paddedDigits 2 month).length = 2 := fun month hmem =>
    length_twoDigits (by have := hreal.month month hmem; omega)
  have hdays : ∀ day ∈ fields.day, (paddedDigits 2 day).length = 2 := fun day hmem =>
    length_twoDigits (by have := hreal.day day hmem; have := dayBound_le fields; omega)
  unfold text? at h
  split at h
  case h_7 => cases h
  case h_3 year =>
    rw [← Option.some.inj h]
    have := hyears year rfl
    omega
  all_goals
    rw [← Option.some.inj h]
    simp only [Option.mem_def, Option.some.injEq, forall_eq'] at hyears hmonths hdays
    simp only [List.length_append, List.length_cons]
    omega

end Calendar

end QuadBase.Value
