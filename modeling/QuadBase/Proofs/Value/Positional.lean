import Mathlib.Algebra.Group.Nat.Hom
import Mathlib.Data.List.Induction
import Mathlib.Tactic.Common
import QuadBase.Value.Decimal

/-!
# Reading decimals back

A decimal is written with its digits and at most a point among them, and reading finds its lowest
form (`readPoint?_text_eq_lowest`).  From this it follows that every fixed-point decimal in range is
read back from its canonical text (`Decimal.read?_text`).

* `IsNumeral` — digits, with at most a point among them, which is what a reader meets first.
* `lowest_mul` — digits that were added behind the point are dropped again.
-/

namespace QuadBase.Value

variable {n width : Nat} {c : Char} {cs : List Char}

/-! ## Digits -/

lemma digitCount_le_iff (h : 0 < width) : digitCount n ≤ width ↔ n < 10 ^ width :=
  Nat.length_toDigits_le_iff (by decide) h

lemma digitCount_pos (n : Nat) : 0 < digitCount n :=
  Nat.length_toDigits_pos

lemma digitCount_mono {k : Nat} (h : n ≤ k) : digitCount n ≤ digitCount k := by
  rw [digitCount_le_iff (digitCount_pos k)]
  exact Nat.lt_of_le_of_lt h ((digitCount_le_iff (digitCount_pos k)).1 (Nat.le_refl _))

/-- Zeros at the end count. -/
lemma digitCount_mul_le (n zeros : Nat) :
    digitCount (n * 10 ^ zeros) ≤ digitCount n + zeros := by
  have hpos := digitCount_pos n
  rw [digitCount_le_iff (by omega), Nat.pow_add]
  exact Nat.mul_lt_mul_of_pos_right ((digitCount_le_iff hpos).1 (Nat.le_refl _))
    (Nat.pow_pos (by decide))

/-- The last digit of a number. -/
lemma digits_eq_concat (n : Nat) : ∃ front, digits n = front ++ [(n % 10).digitChar] := by
  rw [digits, Nat.toDigits_eq_if (by decide)]
  split
  next hlt => exact ⟨[], by rw [Nat.mod_eq_of_lt hlt]; rfl⟩
  next => exact ⟨_, rfl⟩

/-- A number does not begin with a zero. -/
lemma head?_digits (h : 0 < n) : (digits n).head? ≠ some '0' := by
  induction n using Nat.strongRecOn with
  | ind n ih =>
    rw [digits, Nat.toDigits_eq_if (by decide)]
    split
    next hlt =>
      rw [List.head?_cons, ne_eq, Option.some.injEq, Nat.digitChar_eq_zero]
      exact Nat.ne_of_gt h
    next hge =>
      have hquotient := ih (n / 10) (by omega) (by omega)
      rw [digits] at hquotient
      cases hfront : Nat.toDigits 10 (n / 10) with
      | nil => exact absurd hfront Nat.toDigits_ne_nil
      | cons first front =>
        rw [hfront] at hquotient
        exact hquotient

lemma isDigit_of_mem_paddedDigits (h : c ∈ paddedDigits width n) : c.isDigit = true := by
  rcases List.mem_append.1 h with hzero | hdigit
  · rw [List.eq_of_mem_replicate hzero]
    decide
  · exact isDigit_of_mem_digits hdigit

lemma length_paddedDigits (width n : Nat) :
    (paddedDigits width n).length = max width (digitCount n) := by
  rw [paddedDigits, List.length_append, List.length_replicate, digitCount]
  omega

/-- The last digit stays the last one. -/
lemma paddedDigits_eq_concat (width n : Nat) :
    ∃ front, paddedDigits width n = front ++ [(n % 10).digitChar] := by
  obtain ⟨front, hfront⟩ := digits_eq_concat n
  exact ⟨_, by rw [paddedDigits, hfront, ← List.append_assoc]⟩

/-- Padding with nothing. -/
lemma paddedDigits_of_le (h : width ≤ digitCount n) : paddedDigits width n = digits n := by
  have hnone : width - (digits n).length = 0 := Nat.sub_eq_zero_of_le h
  rw [paddedDigits, hnone]
  rfl

/-- Rows of digits are read, whatever zeros they begin with. -/
lemma readNat?_of_isDigit (hne : cs ≠ []) (h : ∀ c ∈ cs, c.isDigit = true) :
    readNat? cs = some (Nat.ofDigitChars 10 cs 0) := by
  have hall : cs.all Char.isDigit = true := List.all_eq_true.2 h
  have hempty : cs.isEmpty = false := by simpa using hne
  rw [readNat?, hall, hempty]
  rfl

lemma ofDigitChars_paddedDigits (width n : Nat) :
    Nat.ofDigitChars 10 (paddedDigits width n) 0 = n := by
  rw [paddedDigits, Nat.ofDigitChars_append, Nat.ofDigitChars_replicate_zero, Nat.mul_zero]
  exact Nat.ofDigitChars_ten_toDigits

/-- Reading undoes padding. -/
lemma readNat?_paddedDigits (h : 0 < width) : readNat? (paddedDigits width n) = some n := by
  have hne : paddedDigits width n ≠ [] := by
    rw [← List.length_pos_iff, length_paddedDigits]
    omega
  rw [readNat?_of_isDigit hne fun c hc => isDigit_of_mem_paddedDigits hc,
    ofDigitChars_paddedDigits]

/-- The last digit is the remainder. -/
lemma ofDigitChars_concat (cs : List Char) (c : Char) :
    Nat.ofDigitChars 10 (cs ++ [c]) 0 =
      10 * Nat.ofDigitChars 10 cs 0 + (c.toNat - '0'.toNat) := by
  rw [Nat.ofDigitChars_append, Nat.ofDigitChars_cons, Nat.ofDigitChars_nil]

lemma toNat_sub_lt (h : c.isDigit = true) : c.toNat - '0'.toNat < 10 := by
  have hrange := Char.isDigit_iff_toNat.1 h
  have hzero : '0'.toNat = 48 := rfl
  have hnine : '9'.toNat = 57 := rfl
  omega

/-- Digits are told apart by what they count. -/
lemma eq_of_toNat_sub_eq {d : Char} (hc : c.isDigit = true) (hd : d.isDigit = true)
    (h : c.toNat - '0'.toNat = d.toNat - '0'.toNat) : c = d := by
  have hrange := Char.isDigit_iff_toNat.1 hc
  have hrange' := Char.isDigit_iff_toNat.1 hd
  exact Char.toNat_inj.1 (by omega)

namespace Positional

variable {d : Positional}

/-! ## Lowest forms -/

lemma lowest_of_isLowest (h : d.IsLowest) : d.lowest = d := by
  obtain ⟨coefficient, places⟩ := d
  cases places with
  | zero => rfl
  | succ places =>
    have hlast : coefficient % 10 ≠ 0 := h.resolve_left (Nat.succ_ne_zero places)
    rw [lowest, dropZeros, if_neg hlast]

/-- Zeros behind the point are dropped. -/
lemma lowest_mul (coefficient places more : Nat) :
    lowest ⟨coefficient * 10 ^ more, places + more⟩ = lowest ⟨coefficient, places⟩ := by
  induction more with
  | zero => rw [Nat.pow_zero, Nat.mul_one, Nat.add_zero]
  | succ more ih =>
    rw [← ih, lowest, ← Nat.add_assoc, dropZeros, Nat.pow_succ, ← Nat.mul_assoc, Nat.mul_mod_left,
      if_pos rfl, Nat.mul_div_cancel _ (by decide)]
    rfl

lemma dropZeros_places_le (coefficient places : Nat) :
    (dropZeros coefficient places).places ≤ places := by
  induction places generalizing coefficient with
  | zero => exact Nat.le_refl 0
  | succ places ih =>
    rw [dropZeros]
    split
    · exact Nat.le_succ_of_le (ih _)
    · exact Nat.le_refl _

lemma lowest_places_le (d : Positional) : d.lowest.places ≤ d.places :=
  dropZeros_places_le d.coefficient d.places

/-- The lowest form, brought to the old number of places again. -/
lemma lowest_coefficient (d : Positional) :
    d.lowest.coefficient * 10 ^ (d.places - d.lowest.places) = d.coefficient := by
  have hvalue := d.lowest_value
  have hsplit : 10 ^ d.places = 10 ^ (d.places - d.lowest.places) * 10 ^ d.lowest.places := by
    rw [← Nat.pow_add, Nat.sub_add_cancel d.lowest_places_le]
  simp only [Nat.pow_eq] at hvalue
  rw [hsplit, ← Nat.mul_assoc] at hvalue
  exact (Nat.eq_of_mul_eq_mul_right (Nat.pow_pos (by decide)) hvalue).symm

lemma lowest_coefficient_le (d : Positional) : d.lowest.coefficient ≤ d.coefficient :=
  Nat.le_trans (Nat.le_mul_of_pos_right _ (Nat.pow_pos (by decide)))
    (Nat.le_of_eq d.lowest_coefficient)

/-! ## Texts -/

/-- Digits, with at most a point among them. -/
inductive IsNumeral : List Char → Prop where
  | whole {cs : List Char} (hne : cs ≠ []) (h : ∀ c ∈ cs, c.isDigit = true) : IsNumeral cs
  | point {whole fraction : List Char} (hne : whole ≠ [])
      (hwhole : ∀ c ∈ whole, c.isDigit = true) (hfraction : ∀ c ∈ fraction, c.isDigit = true) :
      IsNumeral (whole ++ '.' :: fraction)

lemma IsNumeral.exists_cons (h : IsNumeral cs) :
    ∃ first rest, cs = first :: rest ∧ first.isDigit = true := by
  cases h with
  | whole hne h =>
    obtain ⟨first, rest, rfl⟩ := List.exists_cons_of_ne_nil hne
    exact ⟨first, rest, rfl, h first List.mem_cons_self⟩
  | point hne hwhole _ =>
    obtain ⟨first, rest, rfl⟩ := List.exists_cons_of_ne_nil hne
    exact ⟨first, _, rfl, hwhole first List.mem_cons_self⟩

lemma IsNumeral.isDigit_or_point (h : IsNumeral cs) (hc : c ∈ cs) :
    c.isDigit = true ∨ c = '.' := by
  cases h with
  | whole _ h => exact Or.inl (h c hc)
  | point _ hwhole hfraction =>
    rcases List.mem_append.1 hc with hc | hc
    · exact Or.inl (hwhole c hc)
    · rcases List.mem_cons.1 hc with rfl | hc
      · exact Or.inr rfl
      · exact Or.inl (hfraction c hc)

/-- The digits of a decimal, and where the point stands. -/
lemma text_cases (d : Positional) :
    (d.places = 0 ∧ d.text = digits d.coefficient) ∨
    ∃ whole fraction, 0 < d.places ∧ whole ≠ [] ∧ fraction.length = d.places ∧
      whole ++ fraction = paddedDigits (d.places + 1) d.coefficient ∧
      d.text = whole ++ '.' :: fraction := by
  obtain ⟨coefficient, places⟩ := d
  have hlength := length_paddedDigits (places + 1) coefficient
  rcases Nat.eq_zero_or_pos places with hzero | hpos
  · subst hzero
    rw [paddedDigits_of_le (digitCount_pos coefficient)] at hlength
    have hdrop : (digits coefficient).drop ((digits coefficient).length - 0) = [] := by simp
    refine Or.inl ⟨rfl, ?_⟩
    simp only [text, Nat.zero_add, paddedDigits_of_le (digitCount_pos coefficient), hdrop]
    simp
  · right
    dsimp only
    generalize hdigits : paddedDigits (places + 1) coefficient = ds at *
    refine ⟨ds.take (ds.length - places), ds.drop (ds.length - places), hpos, ?_, ?_,
      List.take_append_drop _ _, ?_⟩
    · rw [← List.length_pos_iff, List.length_take]
      omega
    · rw [List.length_drop]
      omega
    · have hne : (ds.drop (ds.length - places)).isEmpty = false := by
        rw [List.isEmpty_eq_false_iff, ← List.length_pos_iff, List.length_drop]
        omega
      simp only [text, hdigits, hne]
      rfl

lemma isNumeral_text (d : Positional) : IsNumeral d.text := by
  rcases d.text_cases with ⟨-, htext⟩ | ⟨whole, fraction, -, hne, -, hdigits, htext⟩
  · rw [htext]
    exact .whole (digits_ne_nil _) fun c hc => isDigit_of_mem_digits hc
  · rw [htext]
    have hall : ∀ c ∈ whole ++ fraction, c.isDigit = true := fun c hc =>
      isDigit_of_mem_paddedDigits (hdigits ▸ hc)
    exact .point hne (fun c hc => hall c (List.mem_append_left _ hc))
      fun c hc => hall c (List.mem_append_right _ hc)

lemma length_text_le (d : Positional) :
    d.text.length ≤ max (d.places + 1) (digitCount d.coefficient) + 1 := by
  rcases d.text_cases with ⟨-, htext⟩ | ⟨whole, fraction, -, -, -, hdigits, htext⟩
  · rw [htext, ← digitCount]
    omega
  · have hlength := congrArg List.length hdigits
    rw [length_paddedDigits, List.length_append] at hlength
    rw [htext, List.length_append, List.length_cons]
    omega

/-! ## Reading them back -/

lemma takeWhile_isDigit {whole : List Char} (rest : List Char)
    (h : ∀ c ∈ whole, c.isDigit = true)
    (hrest : ∀ c ∈ rest.head?, c.isDigit = false) :
    (whole ++ rest).takeWhile Char.isDigit = whole ∧
      (whole ++ rest).dropWhile Char.isDigit = rest := by
  induction whole with
  | nil =>
    cases rest with
    | nil => exact ⟨rfl, rfl⟩
    | cons c rest =>
      have hc : ¬ c.isDigit = true := by rw [hrest c rfl]; exact Bool.false_ne_true
      exact ⟨List.takeWhile_cons_of_neg hc, List.dropWhile_cons_of_neg hc⟩
  | cons c whole ih =>
    obtain ⟨htake, hdrop⟩ := ih fun c hc => h c (List.mem_cons_of_mem _ hc)
    have hc := h c List.mem_cons_self
    rw [List.cons_append, List.takeWhile_cons_of_pos hc, List.dropWhile_cons_of_pos hc, htake,
      hdrop]
    exact ⟨rfl, rfl⟩

lemma withoutFinalZeros_concat (front : List Char) (h : c ≠ '0') :
    Decimal.withoutFinalZeros (front ++ [c]) = front ++ [c] := by
  rw [Decimal.withoutFinalZeros, List.reverse_append, List.reverse_singleton,
    List.singleton_append, List.dropWhile_cons_of_neg (by simpa using h), List.reverse_cons,
    List.reverse_reverse]

lemma withoutFinalZeros_concat_zero (front : List Char) :
    Decimal.withoutFinalZeros (front ++ ['0']) = Decimal.withoutFinalZeros front := by
  rw [Decimal.withoutFinalZeros, List.reverse_append, List.reverse_singleton,
    List.singleton_append, List.dropWhile_cons_of_pos rfl, Decimal.withoutFinalZeros]

/-- **Zeros that a reader drops are zeros that the lowest form drops.** -/
lemma lowest_ofDigitChars {fraction : List Char} (whole : List Char)
    (h : ∀ c ∈ fraction, c.isDigit = true) :
    lowest ⟨Nat.ofDigitChars 10 (whole ++ fraction) 0, fraction.length⟩ =
      ⟨Nat.ofDigitChars 10 (whole ++ Decimal.withoutFinalZeros fraction) 0,
        (Decimal.withoutFinalZeros fraction).length⟩ := by
  induction fraction using List.reverseRecOn with
  | nil => rfl
  | append_singleton front c ih =>
    have hc := h c (by simp)
    have hdigit := toNat_sub_lt hc
    rw [lowest, List.length_append, List.length_singleton, ← List.append_assoc,
      ofDigitChars_concat, dropZeros, Nat.mul_add_mod, Nat.mod_eq_of_lt hdigit]
    by_cases hzero : c = '0'
    · subst hzero
      rw [if_pos (Nat.sub_self _), withoutFinalZeros_concat_zero,
        ← ih fun d hd => h d (List.mem_append_left _ hd), lowest,
        Nat.mul_add_div (by decide), Nat.div_eq_of_lt hdigit, Nat.add_zero]
    · rw [if_neg, withoutFinalZeros_concat front hzero, ← List.append_assoc, ofDigitChars_concat,
        List.length_append, List.length_singleton]
      exact fun heq => hzero (eq_of_toNat_sub_eq hc (by decide) heq)

/-- **Reading finds the lowest form** of what was written. -/
theorem readPoint?_text_eq_lowest (d : Positional) :
    Decimal.readPoint? d.text = some d.lowest := by
  obtain ⟨coefficient, places⟩ := d
  rcases text_cases ⟨coefficient, places⟩ with
    ⟨hplaces, htext⟩ | ⟨whole, fraction, hpos, hne, hlength, hdigits, htext⟩
  · obtain ⟨htake, hdrop⟩ := takeWhile_isDigit []
      (fun c (hc : c ∈ digits coefficient) => isDigit_of_mem_digits hc) (by simp)
    rw [List.append_nil] at htake hdrop
    rw [htext, Decimal.readPoint?]
    simp only [htake, hdrop, readNat?_digits, Option.map_some]
    rw [lowest_of_isLowest (.inl hplaces)]
    exact congrArg some (congrArg (Positional.mk coefficient) hplaces.symm)
  · have hall : ∀ c ∈ whole ++ fraction, c.isDigit = true := fun c hc =>
      isDigit_of_mem_paddedDigits (hdigits ▸ hc)
    have hwhole := fun c hc => hall c (List.mem_append_left fraction hc)
    have hfraction := fun c hc => hall c (List.mem_append_right whole hc)
    obtain ⟨htake, hdrop⟩ := takeWhile_isDigit ('.' :: fraction) hwhole (by simp)
    have hread : readNat? ('0' :: whole ++ Decimal.withoutFinalZeros fraction) =
        some (Nat.ofDigitChars 10 (whole ++ Decimal.withoutFinalZeros fraction) 0) := by
      rw [List.cons_append, readNat?_of_isDigit (List.cons_ne_nil _ _), Nat.ofDigitChars_cons]
      · rfl
      · intro c hc
        rcases List.mem_cons.1 hc with rfl | hc
        · decide
        · rcases List.mem_append.1 hc with hc | hc
          · exact hwhole c hc
          · exact hfraction c (List.mem_reverse.1
              ((List.dropWhile_sublist _).subset (List.mem_reverse.1 hc)))
    have hcoefficient : coefficient = Nat.ofDigitChars 10 (whole ++ fraction) 0 := by
      rw [hdigits, ofDigitChars_paddedDigits]
    have hempty : whole.isEmpty = false := by simpa using hne
    rw [htext, Decimal.readPoint?]
    simp only [htake, hdrop, hempty, Bool.false_and, Bool.false_eq_true, if_false, hread,
      Option.map_some]
    rw [hcoefficient, ← lowest_ofDigitChars whole hfraction, hlength]

/-- **Reading undoes writing**, for decimals in lowest form. -/
theorem readPoint?_text (h : d.IsLowest) : Decimal.readPoint? d.text = some d := by
  rw [readPoint?_text_eq_lowest, lowest_of_isLowest h]

end Positional

/-! ## Signs and numerals -/

/-- A sign is told from the numeral behind it. -/
lemma readSign_signed (h : Positional.IsNumeral cs) (negative : Bool) :
    readSign (signed negative cs) = (negative, cs) := by
  have hplain : readSign cs = (false, cs) := by
    obtain ⟨first, rest, rfl, hfirst⟩ := h.exists_cons
    unfold readSign
    split
    next heq =>
      rw [List.cons.inj heq |>.1] at hfirst
      exact absurd hfirst (by decide)
    next heq =>
      rw [List.cons.inj heq |>.1] at hfirst
      exact absurd hfirst (by decide)
    next => rfl
  cases negative with
  | false => exact hplain
  | true => rfl

lemma length_signed_le (negative : Bool) (cs : List Char) :
    (signed negative cs).length ≤ cs.length + 1 := by
  cases negative with
  | false => exact Nat.le_succ _
  | true => exact Nat.le_refl _

namespace Decimal

/-- **Every decimal in range is read back from its canonical text.** -/
theorem read?_text {d : Decimal} (h : d.units.natAbs < magnitudeBound) :
    read? d.text = some d := by
  have hlowest := Positional.lowest_isLowest ⟨d.units.natAbs, unitPlaces⟩
  have hplaces := Positional.lowest_places_le ⟨d.units.natAbs, unitPlaces⟩
  have hcoefficient := Positional.lowest_coefficient ⟨d.units.natAbs, unitPlaces⟩
  rw [read?, text, readSign_signed (Positional.isNumeral_text _), magnitude]
  generalize Positional.lowest ⟨d.units.natAbs, unitPlaces⟩ = m at *
  simp only [Positional.readPoint?_text hlowest, Option.bind_some, ofPositional?, Nat.pow_eq,
    hcoefficient, hplaces, h, and_self, if_true]
  obtain ⟨units⟩ := d
  simp only [Option.some.injEq, Decimal.mk.injEq]
  split
  next hneg => 
    have := of_decide_eq_true hneg
    omega
  next hpos =>
    have : ¬ units < 0 := by simpa using hpos
    omega

/-- No text of a decimal in range is longer. -/
lemma length_text_le {d : Decimal} (h : d.units.natAbs < magnitudeBound) : d.text.length ≤ 41 := by
  have hsigned := length_signed_le (d.units < 0) d.magnitude.text
  have htext := d.magnitude.length_text_le
  have hplaces : d.magnitude.places ≤ unitPlaces :=
    Positional.lowest_places_le ⟨d.units.natAbs, unitPlaces⟩
  have hcoefficient : d.magnitude.coefficient ≤ d.units.natAbs :=
    Positional.lowest_coefficient_le ⟨d.units.natAbs, unitPlaces⟩
  have hdigits : digitCount d.magnitude.coefficient ≤ 39 := by
    rw [digitCount_le_iff (by decide)]
    exact Nat.lt_trans (Nat.lt_of_le_of_lt hcoefficient h) (by decide)
  have hunit : unitPlaces = 18 := rfl
  rw [text]
  omega

end Decimal

end QuadBase.Value
