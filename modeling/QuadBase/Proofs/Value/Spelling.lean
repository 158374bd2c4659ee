import Mathlib.Data.List.Basic
import QuadBase.Proofs.Value.Positional
import QuadBase.Value.Integer

/-!
# Canonical spellings

A number can be spelled in many ways, and one of them is canonical: no plus sign, no minus sign in
front of zero, and no zeros that could be left out, be it before the number or at the end of its
fraction.  Here the canonical spellings are told by their characters, without recourse to the
writers of numbers, and then the writers are shown to write just these.

* `IsWhole`, `IsFraction` — digits that may stand before and behind a point.
* `IsWhole.paddedDigits_eq` — such digits are determined by their value and the place of the point.
* `Integer.isCanonical_iff`, `Decimal.isCanonical_iff` — **a spelling is canonical exactly if it is
  what is written for its number.**
-/

namespace QuadBase.Value

variable {cs ds whole fraction : List Char} {c : Char} {n width : Nat}

/-! ## The value of digits -/

/-- The first digit weighs more than all that follow. -/
lemma ofDigitChars_cons_eq (c : Char) (cs : List Char) :
    Nat.ofDigitChars 10 (c :: cs) 0 =
      10 ^ cs.length * (c.toNat - '0'.toNat) + Nat.ofDigitChars 10 cs 0 := by
  rw [Nat.ofDigitChars_cons, Nat.ofDigitChars_eq_ofDigitChars_zero, Nat.mul_zero, Nat.zero_add]

lemma ofDigitChars_lt (h : ∀ c ∈ cs, c.isDigit = true) :
    Nat.ofDigitChars 10 cs 0 < 10 ^ cs.length := by
  induction cs with
  | nil => simp
  | cons c cs ih =>
    have hrest := ih fun d hd => h d (List.mem_cons_of_mem c hd)
    have hfirst := toNat_sub_lt (h c List.mem_cons_self)
    rw [ofDigitChars_cons_eq, List.length_cons, Nat.pow_succ]
    calc 10 ^ cs.length * (c.toNat - '0'.toNat) + Nat.ofDigitChars 10 cs 0
        < 10 ^ cs.length * (c.toNat - '0'.toNat) + 10 ^ cs.length := by omega
      _ = 10 ^ cs.length * (c.toNat - '0'.toNat + 1) := (Nat.mul_succ _ _).symm
      _ ≤ 10 ^ cs.length * 10 := Nat.mul_le_mul_left _ hfirst

/-- **As many digits with the same value are the same digits.** -/
lemma eq_of_ofDigitChars_eq (hcs : ∀ c ∈ cs, c.isDigit = true) (hds : ∀ c ∈ ds, c.isDigit = true)
    (hlength : cs.length = ds.length)
    (h : Nat.ofDigitChars 10 cs 0 = Nat.ofDigitChars 10 ds 0) : cs = ds := by
  induction cs generalizing ds with
  | nil => exact (List.length_eq_zero_iff.1 hlength.symm).symm
  | cons c cs ih =>
    cases ds with
    | nil => cases hlength
    | cons d ds =>
      have hlength' : cs.length = ds.length := Nat.succ.inj hlength
      have hcs' := fun e he => hcs e (List.mem_cons_of_mem c he)
      have hds' := fun e he => hds e (List.mem_cons_of_mem d he)
      have hlt := ofDigitChars_lt hcs'
      have hlt' := ofDigitChars_lt hds'
      rw [ofDigitChars_cons_eq, ofDigitChars_cons_eq, hlength'] at h
      rw [hlength'] at hlt
      -- quotient and remainder by the weight of the first digit
      have hfirst := congrArg (· / 10 ^ ds.length) h
      have hrest := congrArg (· % 10 ^ ds.length) h
      simp only [Nat.mul_add_div (Nat.pow_pos (by decide : 0 < 10)), Nat.mul_add_mod,
        Nat.div_eq_of_lt, Nat.mod_eq_of_lt, hlt, hlt', Nat.add_zero] at hfirst hrest
      rw [eq_of_toNat_sub_eq (hcs c List.mem_cons_self) (hds d List.mem_cons_self) hfirst,
        ih hcs' hds' hlength' hrest]

/-- Digits are the padded digits of their value. -/
lemma paddedDigits_ofDigitChars (hne : cs ≠ []) (h : ∀ c ∈ cs, c.isDigit = true) :
    paddedDigits cs.length (Nat.ofDigitChars 10 cs 0) = cs := by
  have hcount : digitCount (Nat.ofDigitChars 10 cs 0) ≤ cs.length :=
    (digitCount_le_iff (List.length_pos_iff.2 hne)).2 (ofDigitChars_lt h)
  refine eq_of_ofDigitChars_eq (fun c hc => isDigit_of_mem_paddedDigits hc) h ?_
    (ofDigitChars_paddedDigits _ _)
  rw [length_paddedDigits, Nat.max_eq_left hcount]

/-- More digits than it takes begin with a zero. -/
lemma head?_paddedDigits (h : digitCount n < width) : (paddedDigits width n).head? = some '0' := by
  obtain ⟨zeros, hzeros⟩ := Nat.exists_eq_succ_of_ne_zero (Nat.sub_ne_zero_of_lt h)
  rw [digitCount] at hzeros
  rw [paddedDigits, hzeros]
  rfl

/-! ## Before and behind the point -/

/-- Digits without superfluous zeros before them: there is one, and the first is zero only if it is
the only one. -/
structure IsWhole (cs : List Char) : Prop where
  ne_nil : cs ≠ []
  isDigit : ∀ c ∈ cs, c.isDigit = true
  eq_zero : cs.head? = some '0' → cs = ['0']

/-- Digits without superfluous zeros behind them. -/
structure IsFraction (cs : List Char) : Prop where
  isDigit : ∀ c ∈ cs, c.isDigit = true
  getLast?_ne : cs.getLast? ≠ some '0'

/-- **Whole part and fraction are determined by their value and the place of the point.** -/
theorem IsWhole.paddedDigits_eq (hwhole : IsWhole whole)
    (hfraction : ∀ c ∈ fraction, c.isDigit = true) :
    paddedDigits (fraction.length + 1) (Nat.ofDigitChars 10 (whole ++ fraction) 0) =
      whole ++ fraction := by
  have hpos := List.length_pos_iff.2 hwhole.ne_nil
  have hdigits : ∀ c ∈ whole ++ fraction, c.isDigit = true := by
    intro c hc
    rcases List.mem_append.1 hc with hc | hc
    · exact hwhole.isDigit c hc
    · exact hfraction c hc
  have hall := paddedDigits_ofDigitChars (by simp [hwhole.ne_nil]) hdigits
  rw [List.length_append] at hall
  by_cases hcount : whole.length + fraction.length ≤
      digitCount (Nat.ofDigitChars 10 (whole ++ fraction) 0)
  · rw [paddedDigits_of_le hcount] at hall
    rw [paddedDigits_of_le (by omega), hall]
  · -- the first digit is a zero, so it is all there is before the point
    have hhead := head?_paddedDigits (Nat.not_le.1 hcount)
    rw [hall, List.head?_append_of_ne_nil _ hwhole.ne_nil] at hhead
    obtain rfl := hwhole.eq_zero hhead
    rwa [List.length_singleton, Nat.add_comm] at hall

lemma IsWhole.digits_ofDigitChars (h : IsWhole cs) : digits (Nat.ofDigitChars 10 cs 0) = cs := by
  have heq := @IsWhole.paddedDigits_eq cs [] h (by simp)
  rwa [List.append_nil, List.length_nil, paddedDigits_of_le (digitCount_pos _)] at heq

/-- What stands before the point has no superfluous zeros. -/
lemma isWhole_of_append (hne : whole ≠ [])
    (h : whole ++ fraction = paddedDigits (fraction.length + 1) n) : IsWhole whole where
  ne_nil := hne
  isDigit c hc := isDigit_of_mem_paddedDigits (h ▸ List.mem_append_left _ hc)
  eq_zero hzero := by
    have hlength := congrArg List.length h
    rw [List.length_append, length_paddedDigits] at hlength
    have hone : whole.length = 1 := by
      by_cases hcount : fraction.length + 1 ≤ digitCount n
      · -- only the digits of zero begin with a zero
        rw [← List.head?_append_of_ne_nil whole hne, h, paddedDigits_of_le hcount] at hzero
        have hn : n = 0 := Nat.eq_zero_of_not_pos fun hpos => head?_digits hpos hzero
        have hcount' : digitCount n = 1 := by rw [hn]; rfl
        omega
      · omega
    obtain ⟨c, rfl⟩ := List.length_eq_one_iff.1 hone
    rw [Option.some.inj hzero]

lemma isWhole_digits (n : Nat) : IsWhole (digits n) := by
  refine @isWhole_of_append (digits n) [] n (digits_ne_nil n) ?_
  rw [List.append_nil, List.length_nil, paddedDigits_of_le (digitCount_pos n)]

/-! ## Integers -/

/-- A spelling of an integer is canonical: its digits have no superfluous zeros, and a minus sign is
in front exactly if it is negative. -/
def Integer.IsCanonical (cs : List Char) (value : Int) : Prop :=
  ∃ ds, IsWhole ds ∧ Nat.ofDigitChars 10 ds 0 = value.natAbs ∧ cs = signed (value < 0) ds

/-- **The canonical spelling of an integer is its numeral.** -/
theorem Integer.isCanonical_iff {value : Int} :
    Integer.IsCanonical cs value ↔ cs = Integer.text value := by
  constructor
  · rintro ⟨ds, hwhole, hvalue, rfl⟩
    rw [Integer.text, ← hvalue, hwhole.digits_ofDigitChars]
  · rintro rfl
    exact ⟨digits value.natAbs, isWhole_digits _, Nat.ofDigitChars_ten_toDigits, rfl⟩

/-! ## Decimals -/

/-- What follows the whole part: nothing, or a point with the fraction behind it. -/
def Decimal.pointed (fraction : List Char) : List Char :=
  if fraction = [] then [] else '.' :: fraction

/-- A spelling of the decimal `unscaled / 10 ^ places` is canonical: the whole part has no
superfluous zeros, neither has the fraction, which has as many digits as there are places, and a
minus sign is in front exactly if the decimal is negative. -/
def Decimal.IsCanonical (cs : List Char) (unscaled : Int) (places : Nat) : Prop :=
  ∃ whole fraction, IsWhole whole ∧ IsFraction fraction ∧ fraction.length = places ∧
    Nat.ofDigitChars 10 (whole ++ fraction) 0 = unscaled.natAbs ∧
    cs = signed (unscaled < 0) (whole ++ Decimal.pointed fraction)

namespace Positional

lemma text_eq_pointed (h : whole ++ fraction = paddedDigits (fraction.length + 1) n) :
    text ⟨n, fraction.length⟩ = whole ++ Decimal.pointed fraction := by
  have hlength : (whole ++ fraction).length - fraction.length = whole.length := by
    rw [List.length_append, Nat.add_sub_cancel]
  simp only [text, ← h, hlength, List.take_left, List.drop_left, Decimal.pointed,
    List.isEmpty_iff]
  split
  next => rw [List.append_nil]
  next => rfl

/-- Whole part and fraction of a decimal in lowest form. -/
lemma exists_text_eq (d : Positional) (h : d.IsLowest) :
    ∃ whole fraction, IsWhole whole ∧ IsFraction fraction ∧ fraction.length = d.places ∧
      Nat.ofDigitChars 10 (whole ++ fraction) 0 = d.coefficient ∧
      d.text = whole ++ Decimal.pointed fraction := by
  obtain ⟨n, places⟩ := d
  obtain ⟨whole, fraction, hne, rfl, hdigits⟩ : ∃ whole fraction, whole ≠ [] ∧
      fraction.length = places ∧ whole ++ fraction = paddedDigits (fraction.length + 1) n := by
    have hlength := length_paddedDigits (places + 1) n
    refine ⟨(paddedDigits (places + 1) n).take ((paddedDigits (places + 1) n).length - places),
      (paddedDigits (places + 1) n).drop ((paddedDigits (places + 1) n).length - places), ?_, ?_, ?_⟩
    · rw [← List.length_pos_iff, List.length_take]
      omega
    · rw [List.length_drop]
      omega
    · rw [List.take_append_drop, List.length_drop, show (paddedDigits (places + 1) n).length -
        ((paddedDigits (places + 1) n).length - places) = places by omega]
  refine ⟨whole, fraction, isWhole_of_append hne hdigits, ⟨fun c hc => ?_, fun hzero => ?_⟩, rfl,
    ?_, text_eq_pointed hdigits⟩
  · exact isDigit_of_mem_paddedDigits (hdigits ▸ List.mem_append_right _ hc)
  · obtain ⟨front, hfront⟩ := paddedDigits_eq_concat (fraction.length + 1) n
    have hlast : (whole ++ fraction).getLast? = some '0' := by
      rw [List.getLast?_append, hzero, Option.some_or]
    rw [hdigits, hfront, List.getLast?_concat, Option.some.injEq, Nat.digitChar_eq_zero] at hlast
    rcases h with hplaces | hmod
    · rw [List.length_eq_zero_iff.1 hplaces] at hzero
      cases hzero
    · exact hmod hlast
  · rw [hdigits, ofDigitChars_paddedDigits]

/-- No place can be left out if the fraction does not end in a zero. -/
lemma isLowest_of_isFraction (h : IsFraction fraction) (whole : List Char) :
    IsLowest ⟨Nat.ofDigitChars 10 (whole ++ fraction) 0, fraction.length⟩ := by
  rcases List.eq_nil_or_concat fraction with rfl | ⟨front, c, rfl⟩
  · exact .inl rfl
  · rw [List.concat_eq_append] at h ⊢
    have hdigit := h.isDigit c (by simp)
    have hlt := toNat_sub_lt hdigit
    refine .inr ?_
    dsimp only
    rw [← List.append_assoc, ofDigitChars_concat, Nat.mul_add_mod, Nat.mod_eq_of_lt hlt]
    intro hzero
    refine h.getLast?_ne ?_
    rw [List.getLast?_concat, eq_of_toNat_sub_eq hdigit (d := '0') (by decide) hzero]

end Positional

/-- **The canonical spelling of a decimal is the text of its lowest form.** -/
theorem Decimal.isCanonical_iff {unscaled : Int} {places : Nat} :
    Decimal.IsCanonical cs unscaled places ↔ Positional.IsLowest ⟨unscaled.natAbs, places⟩ ∧
      cs = signed (unscaled < 0) (Positional.text ⟨unscaled.natAbs, places⟩) := by
  constructor
  · rintro ⟨whole, fraction, hwhole, hfraction, rfl, hvalue, rfl⟩
    have hdigits := (hwhole.paddedDigits_eq hfraction.isDigit).symm
    rw [hvalue] at hdigits
    refine ⟨hvalue ▸ Positional.isLowest_of_isFraction hfraction whole, ?_⟩
    rw [Positional.text_eq_pointed hdigits]
  · rintro ⟨hlowest, rfl⟩
    obtain ⟨whole, fraction, hwhole, hfraction, hplaces, hvalue, htext⟩ :=
      Positional.exists_text_eq _ hlowest
    exact ⟨whole, fraction, hwhole, hfraction, hplaces, hvalue, by rw [htext]⟩

end QuadBase.Value
