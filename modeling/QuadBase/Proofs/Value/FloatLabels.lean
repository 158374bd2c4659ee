import Mathlib.Data.List.TakeWhile
import QuadBase.Proofs.Value.Shortest

/-!
# Reading floats back

Every word of a format is read back from its text (`read?_text`), except that there is only one text
for not-a-number, which is read as the quiet one.

The text of a finite word is the decimal that the search of the shortest decimal finds, and this
decimal is near the magnitude, so that it rounds to the word again.  What remains is the frame: the
text is a numeral and no name (`read?_signed_text`), and the decimal lies far from the exponents that
are decided without a computation (`roundDecimal_of_near`).
-/

namespace QuadBase.Value.BinaryFormat

variable {f : BinaryFormat} {m word : Nat} {e : Int}

/-- The fields of the format are not wider than those of the 64-bit format. -/
structure Fits64 (f : BinaryFormat) : Prop where
  fraction_le : f.fractionBits ≤ 52
  exponent_ge : 2 ≤ f.exponentBits
  exponent_le : f.exponentBits ≤ 11

lemma fits64_binary64 : binary64.Fits64 := by
  constructor <;> decide

lemma fits64_binary32 : binary32.Fits64 := by
  constructor <;> decide

/-! ## The magnitude of a word -/

/-- The exponent of the greatest magnitudes. -/
def greatestExponent (f : BinaryFormat) : Int :=
  f.leastExponent + Nat.pow 2 f.exponentBits - 3

/-- What a word says, without its sign. -/
inductive Reading (f : BinaryFormat) (word : Nat) : Magnitude → Prop where
  | zero (e : Int) (hword : word = 0) : Reading f word (.finite 0 e)
  | finite {m : Nat} {e : Int} (hm : f.Represented m e) (he : e ≤ f.greatestExponent)
      (hword : word = f.wordOf m e) (hlt : word < f.infinity) : Reading f word (.finite m e)
  | infinite (hword : word = f.infinity) : Reading f word .infinite
  | notANumber (hword : f.infinity < word) : Reading f word .notANumber

/-- Exponent and fraction, without the sign above them. -/
lemma mod_signBit (f : BinaryFormat) (word : Nat) :
    word % f.signBit = word % 2 ^ f.fractionBits +
      2 ^ f.fractionBits * (word / 2 ^ f.fractionBits % 2 ^ f.exponentBits) := by
  rw [signBit_eq, Nat.pow_eq, Nat.pow_eq, Nat.mul_comm, Nat.mod_mul]

lemma wordOf_least (f : BinaryFormat) (fraction : Nat) :
    f.wordOf fraction f.leastExponent = fraction := by
  rw [wordOf, Int.sub_self, Int.toNat_zero, Nat.zero_mul, Nat.zero_add]

/-- The leading bit of a significand is the last one of the exponent. -/
lemma wordOf_normal (f : BinaryFormat) (fraction steps : Nat) :
    f.wordOf (2 ^ f.fractionBits + fraction) (f.leastExponent + (steps + 1 : Nat) - 1) =
      fraction + 2 ^ f.fractionBits * (steps + 1) := by
  have hsteps : (f.leastExponent + (steps + 1 : Nat) - 1 - f.leastExponent).toNat = steps := by
    omega
  rw [wordOf, hsteps, Nat.mul_add, Nat.mul_one, Nat.mul_comm steps]
  omega

/-- **The magnitude of a word determines the word**, up to the sign and the payloads of
not-a-number. -/
theorem reading_magnitude (hf : f.Fits64) (word : Nat) :
    Reading f (word % f.signBit) (f.magnitude word) := by
  have hpower : 2 ^ 2 ≤ 2 ^ f.exponentBits := Nat.pow_le_pow_right (by decide) hf.exponent_ge
  have hrest := Nat.mod_lt word (Nat.two_pow_pos f.fractionBits)
  have hexponent := Nat.mod_lt (word / 2 ^ f.fractionBits) (Nat.two_pow_pos f.exponentBits)
  have hinfinity : f.infinity = 2 ^ f.fractionBits * (2 ^ f.exponentBits - 1) := Nat.mul_comm _ _
  rw [mod_signBit]
  simp only [magnitude, Nat.pow_eq]
  generalize word % 2 ^ f.fractionBits = fraction at *
  generalize word / 2 ^ f.fractionBits % 2 ^ f.exponentBits = exponent at *
  split
  next htop =>
    subst htop
    split
    next hzero => exact .infinite (by rw [hinfinity, hzero, Nat.zero_add])
    next hsome => exact .notANumber (by rw [hinfinity]; omega)
  next hbelow =>
    have hlt : fraction + 2 ^ f.fractionBits * exponent < f.infinity := by
      have hnext : exponent + 1 ≤ 2 ^ f.exponentBits - 1 := by omega
      have hle := Nat.mul_le_mul_left (2 ^ f.fractionBits) hnext
      rw [Nat.mul_add, Nat.mul_one] at hle
      rw [hinfinity]
      omega
    have hgreatest : f.greatestExponent = f.leastExponent + (2 ^ f.exponentBits : Nat) - 3 := rfl
    split
    next hzero =>
      subst hzero
      rcases Nat.eq_zero_or_pos fraction with rfl | hpos
      · exact .zero _ rfl
      · have hm : f.Represented fraction f.leastExponent :=
          ⟨hpos, by rw [Nat.pow_succ]; omega, le_refl _, Or.inl rfl⟩
        exact .finite hm (by omega) (f.wordOf_least fraction).symm hlt
    next hnormal =>
      obtain ⟨steps, rfl⟩ := Nat.exists_eq_succ_of_ne_zero hnormal
      have hm : f.Represented (2 ^ f.fractionBits + fraction)
          (f.leastExponent + (steps + 1 : Nat) - 1) :=
        ⟨by omega, by rw [Nat.pow_succ]; omega, by omega, Or.inr (Nat.le_add_right _ _)⟩
      exact .finite hm (by omega) (f.wordOf_normal fraction steps).symm hlt

/-! ## The range of the magnitudes -/

/-- Three binary places are less than a decimal one. -/
lemma two_pow_le_ten_pow (n : Nat) : (2 : ℚ) ^ (3 * n) ≤ 10 ^ n := by
  rw [pow_mul]
  exact pow_le_pow_left₀ (by positivity) (by norm_num) n

lemma ten_zpow_le_two_zpow (n : Nat) : (10 : ℚ) ^ (-n : Int) ≤ 2 ^ (-(3 * n : Nat) : Int) := by
  rw [zpow_neg, zpow_neg, zpow_natCast, zpow_natCast]
  exact inv_anti₀ (by positivity) (two_pow_le_ten_pow n)

/-- The magnitudes of a format, between powers of ten. -/
lemma value_bounds (hf : f.Fits64) (hm : f.Represented m e) (he : e ≤ f.greatestExponent) :
    (10 : ℚ) ^ (-358 : Int) ≤ m * 2 ^ e ∧ (m : ℚ) * 2 ^ e < 10 ^ (342 : Int) := by
  have hfraction := hf.fraction_le
  have hbias : 2 ^ (f.exponentBits - 1) ≤ 2 ^ 10 :=
    Nat.pow_le_pow_right (by decide) (by have := hf.exponent_le; omega)
  have hdouble : 2 ^ f.exponentBits = 2 * 2 ^ (f.exponentBits - 1) := by
    rw [← Nat.pow_succ', Nat.succ_eq_add_one, Nat.sub_add_cancel (by have := hf.exponent_ge; omega)]
  have hleast := hm.least
  rw [greatestExponent] at he
  rw [leastExponent] at hleast he
  simp only [Nat.pow_eq, hdouble] at hleast he
  constructor
  · have hone : (1 : ℚ) ≤ m := by exact_mod_cast hm.pos
    calc (10 : ℚ) ^ (-358 : Int) ≤ 2 ^ (-1074 : Int) := ten_zpow_le_two_zpow 358
      _ ≤ 2 ^ e := zpow_le_zpow_right₀ one_le_two (by omega)
      _ ≤ m * 2 ^ e := le_mul_of_one_le_left (by positivity) hone
  · have hlt : (m : ℚ) < 2 ^ (f.fractionBits + 1) := by exact_mod_cast hm.lt
    calc (m : ℚ) * 2 ^ e < 2 ^ (f.fractionBits + 1) * 2 ^ e := by gcongr
      _ = 2 ^ (((f.fractionBits + 1 : Nat) : Int) + e) := by
        rw [zpow_add₀ two_ne_zero, zpow_natCast]
      _ ≤ 2 ^ (1026 : Int) := zpow_le_zpow_right₀ one_le_two (by omega)
      _ ≤ 10 ^ (342 : Int) := two_pow_le_ten_pow 342

lemma Near.bounds {q : ℚ} (h : f.Near m e q) (hm : f.Represented m e) :
    (m : ℚ) * 2 ^ e / 2 ≤ q ∧ q ≤ 2 * (m * 2 ^ e) := by
  have hpower : (0 : ℚ) < 2 ^ e := by positivity
  have hone : (1 : ℚ) ≤ m := by exact_mod_cast hm.pos
  have hreach := reachBelow_le f m e
  have hlow : (m : ℚ) / 2 ≤ q / 2 ^ e := le_trans (by linarith) h.low
  have hhigh : q / 2 ^ e ≤ 2 * m := h.high.trans (by linarith)
  rw [le_div_iff₀ hpower] at hlow
  rw [div_le_iff₀ hpower] at hhigh
  constructor <;> linarith

section Order

variable {coefficient : Nat} {exponent limit : Int}

/-- The first digit of a decimal stands behind the limit. -/
lemma lt_digitCount_add (hpos : 0 < coefficient)
    (h : (10 : ℚ) ^ limit ≤ coefficient * 10 ^ exponent) :
    limit < digitCount coefficient + exponent := by
  obtain ⟨-, hdigits⟩ := Interval.digitCount_bounds hpos
  have hpower : (0 : ℚ) < 10 ^ exponent := by positivity
  have hten : (1 : ℚ) < 10 := by norm_num
  rw [← zpow_lt_zpow_iff_right₀ hten, zpow_add₀ (by decide)]
  exact h.trans_lt (by gcongr)

lemma digitCount_add_le (hpos : 0 < coefficient)
    (h : (coefficient : ℚ) * 10 ^ exponent < 10 ^ limit) :
    digitCount coefficient + exponent ≤ limit := by
  obtain ⟨hdigits, -⟩ := Interval.digitCount_bounds hpos
  have hten : (1 : ℚ) < 10 := by norm_num
  have hless : (10 : ℚ) ^ ((digitCount coefficient : Int) - 1 + exponent) < 10 ^ limit := by
    rw [zpow_add₀ (by decide)]
    exact lt_of_le_of_lt (by gcongr) h
  have hlimit := (zpow_lt_zpow_iff_right₀ hten).1 hless
  omega

/-- Twice a magnitude has at most one digit more before the point. -/
lemma lt_zpow_succ {v q : ℚ} (hv : v < 10 ^ limit) (hq : q ≤ 2 * v) : q < 10 ^ (limit + 1) := by
  have hpower : (0 : ℚ) < 10 ^ limit := by positivity
  rw [zpow_add_one₀ (by decide)]
  generalize (10 : ℚ) ^ limit = power at *
  linarith

end Order

lemma Near.coefficient_pos {coefficient : Nat} {exponent : Int}
    (h : f.Near m e (coefficient * 10 ^ exponent)) (hm : f.Represented m e) : 0 < coefficient := by
  exact_mod_cast (mul_pos_iff_of_pos_right (by positivity)).1 (h.pos hm)

/-- **A decimal near a magnitude is read as its word.** -/
theorem roundDecimal_of_near (hf : f.Fits64) (hm : f.Represented m e) (he : e ≤ f.greatestExponent)
    {coefficient : Nat} {exponent : Int} (h : f.Near m e (coefficient * 10 ^ exponent)) :
    f.roundDecimal coefficient exponent = min f.infinity (f.wordOf m e) := by
  have hpos := h.coefficient_pos hm
  obtain ⟨hleast, hgreatest⟩ := value_bounds hf hm he
  obtain ⟨hlow, hhigh⟩ := h.bounds hm
  -- far from the exponents that are decided without a computation
  have habove : -359 < digitCount coefficient + exponent := by
    refine lt_digitCount_add hpos (le_trans ?_ hlow)
    rw [show (-359 : Int) = -358 - 1 by rfl, zpow_sub_one₀ (by decide)]
    linarith
  have hbelow : digitCount coefficient + exponent ≤ 343 :=
    digitCount_add_le hpos (lt_zpow_succ hgreatest hhigh)
  have hcap : exponentCap = 5000 := rfl
  rw [← ratio_ten_zpow] at h
  rw [roundDecimal, if_neg (by omega), if_neg (by omega)]
  exact round_of_near hm (Nat.mul_pos hpos (Nat.pow_pos (by decide))) (Nat.pow_pos (by decide)) h

/-! ## Numerals -/

lemma toLower_of_isDigit {c : Char} (h : c.isDigit = true) : c.toLower = c := by
  have hbig : ¬ (c.val ≥ 'A'.val ∧ c.val ≤ 'Z'.val) := by
    rintro ⟨hlow, -⟩
    simp only [Char.isDigit, Bool.and_eq_true, decide_eq_true_eq] at h
    exact absurd (UInt32.le_trans hlow h.2) (by decide)
  exact dif_neg hbig

/-- A numeral is read as a whole, as there is no mark of an exponent in it, and it is no name. -/
theorem read?_signed_text {d : Positional} (h : d.IsLowest) (negative : Bool) :
    f.read? (signed negative d.text) =
      some (f.withSign negative (f.roundDecimal d.coefficient (-d.places))) := by
  have hnumeral := d.isNumeral_text
  have hmarks : ∀ c ∈ d.text, (!(c = 'e' || c = 'E' : Bool)) = true := by
    intro c hc
    rcases hnumeral.isDigit_or_point hc with hdigit | rfl
    · have he : c ≠ 'e' := by
        rintro rfl
        cases hdigit
      have hE : c ≠ 'E' := by
        rintro rfl
        cases hdigit
      simp [he, hE]
    · decide
  have hread : f.readNumeral? d.text = some (f.roundDecimal d.coefficient (-d.places)) := by
    simp only [readNumeral?, List.takeWhile_eq_self_iff.2 hmarks,
      List.dropWhile_eq_nil_iff.2 hmarks, Positional.readPoint?_text h, readExponent?, bind,
      Option.bind_some, Int.zero_sub]
  obtain ⟨first, rest, htext, hfirst⟩ := hnumeral.exists_cons
  have hname : ∀ c cs, c.isDigit = false → d.text.map Char.toLower ≠ c :: cs := by
    intro c cs hc heq
    rw [htext, List.map_cons, toLower_of_isDigit hfirst] at heq
    rw [(List.cons.inj heq).1, hc] at hfirst
    cases hfirst
  rw [read?, readSign_signed hnumeral]
  simp only [hread]
  rw [if_neg, if_neg, Option.map_some]
  · exact hname _ _ (by decide)
  · rintro (heq | heq)
    · exact hname _ _ (by decide) heq
    · exact hname _ _ (by decide) heq

/-! ## Texts -/

/-- The decimal as a ratio. -/
lemma ofScaled_ratio (coefficient : Nat) (power : Int) :
    ((Positional.ofScaled coefficient power).coefficient : ℚ) *
      10 ^ (-(Positional.ofScaled coefficient power).places : Int) = coefficient * 10 ^ power := by
  have hvalue := Positional.lowest_value ⟨coefficient * Nat.pow 10 power.toNat, (-power).toNat⟩
  rw [← ratio_ten_zpow coefficient power, Positional.ofScaled]
  generalize Positional.lowest ⟨coefficient * Nat.pow 10 power.toNat, (-power).toNat⟩ = d at *
  have hup := cast_natPow_pos (show 0 < 10 by decide) d.places
  have hdown := cast_natPow_pos (show 0 < 10 by decide) (-power).toNat
  have hcast : (d.coefficient : ℚ) * (Nat.pow 10 (-power).toNat : Nat) =
      (coefficient * Nat.pow 10 power.toNat : Nat) * (Nat.pow 10 d.places : Nat) := by
    exact_mod_cast hvalue.symm
  have hten : ((Nat.pow 10 d.places : Nat) : ℚ) = 10 ^ d.places := by
    rw [Nat.pow_eq, Nat.cast_pow, Nat.cast_ofNat]
  rw [zpow_neg, zpow_natCast, ← hten, ← div_eq_mul_inv]
  exact (div_eq_div_iff hup.ne' hdown.ne').2 hcast

lemma ofScaled_isLowest (coefficient : Nat) (power : Int) :
    (Positional.ofScaled coefficient power).IsLowest :=
  Positional.lowest_isLowest _

/-- A word has a sign and a magnitude. -/
lemma withSign_isNegative (hword : word < 2 * f.signBit) :
    f.withSign (f.isNegative word) (word % f.signBit) = word := by
  have hdivision := Nat.div_add_mod word f.signBit
  have hsign : word / f.signBit < 2 := (Nat.div_lt_iff_lt_mul (Nat.two_pow_pos _)).2 hword
  rw [withSign, isNegative]
  rcases Nat.le_one_iff_eq_zero_or_eq_one.1 (Nat.le_of_lt_succ hsign) with hzero | hone
  · rw [hzero, Nat.mul_zero, Nat.zero_add] at hdivision
    rw [hzero, hdivision]
    rfl
  · rw [hone, Nat.mul_one] at hdivision
    rw [hone, hdivision]
    rfl

lemma read?_infinite (negative : Bool) :
    f.read? (signed negative "INF".toList) = some (f.withSign negative f.infinity) := by
  cases negative with
  | false => rfl
  | true => rfl

lemma read?_notANumber : f.read? "NaN".toList = some f.quietNaN := rfl

/-! ### The texts of words -/

lemma text_zero (h : f.magnitude word = .finite 0 e) :
    f.text word = signed (f.isNegative word) (Positional.text ⟨0, 0⟩) := by
  simp only [text, h]
  rfl

/-- The text of a finite word has the decimal that the search finds. -/
lemma text_of_shortest? {coefficient : Nat} {power : Int} (hm : 0 < m)
    (h : f.magnitude word = .finite m e)
    (hfound : (Interval.ofFinite f m e).shortest? = some (coefficient, power)) :
    f.text word = signed (f.isNegative word) (Positional.ofScaled coefficient power).text := by
  obtain ⟨k, rfl⟩ := Nat.exists_eq_succ_of_ne_zero hm.ne'
  simp only [text, h, Magnitude.text, hfound]

/-- The text of a finite word is a decimal near the magnitude. -/
lemma text_finite (hf : f.Fits64) (hm : f.Represented m e) (h : f.magnitude word = .finite m e) :
    ∃ coefficient power,
      f.text word = signed (f.isNegative word) (Positional.ofScaled coefficient power).text ∧
        f.Near m e (coefficient * 10 ^ power) ∧ Int.log 10 ((m : ℚ) * 2 ^ e) - 16 ≤ power := by
  obtain ⟨coefficient, power, hfound, hnear⟩ := Interval.shortest?_spec hm hf.fraction_le
  exact ⟨coefficient, power, text_of_shortest? hm.pos h hfound, hnear⟩

lemma text_infinite (h : f.magnitude word = .infinite) :
    f.text word = signed (f.isNegative word) "INF".toList := by
  simp only [text, h, Magnitude.text]

lemma text_notANumber (h : f.magnitude word = .notANumber) : f.text word = "NaN".toList := by
  simp only [text, h, Magnitude.text]

/-- The word with the only not-a-number that has a text. -/
def quieted (f : BinaryFormat) (word : Nat) : Nat :=
  if f.magnitude word = .notANumber then f.quietNaN else word

lemma quieted_of_ne (h : f.magnitude word ≠ .notANumber) : f.quieted word = word :=
  if_neg h

/-- A magnitude up to infinity is a number. -/
lemma magnitude_withSign_ne (hf : f.Fits64) {magnitude : Nat} (h : magnitude ≤ f.infinity)
    (negative : Bool) : f.magnitude (f.withSign negative magnitude) ≠ .notANumber := by
  intro hnan
  have hreading := reading_magnitude hf (f.withSign negative magnitude)
  have hmod : f.withSign negative magnitude % f.signBit = magnitude := by
    have hlt := Nat.lt_of_le_of_lt h f.infinity_lt
    cases negative with
    | false => exact Nat.mod_eq_of_lt hlt
    | true => exact (Nat.add_mod_left _ _).trans (Nat.mod_eq_of_lt hlt)
  rw [hnan, hmod] at hreading
  cases hreading with
  | notANumber hless => exact absurd h (Nat.not_le_of_lt hless)

/-- Numbers stay numbers in every format. -/
lemma quieted_convert (hf : f.Fits64) {g : BinaryFormat} (h : g.magnitude word ≠ .notANumber) :
    f.quieted (f.convert g word) = f.convert g word := by
  refine quieted_of_ne (magnitude_withSign_ne hf ?_ _)
  generalize g.magnitude word = magnitude at h
  cases magnitude with
  | finite significand exponent => exact f.round_le _ _
  | infinite => exact Nat.le_refl _
  | notANumber => exact absurd rfl h

/-- **Every word is read back from its text**, and not-a-number as the quiet one. -/
theorem read?_text (hf : f.Fits64) (hword : word < 2 * f.signBit) :
    f.read? (f.text word) = some (f.quieted word) := by
  have hsigned := withSign_isNegative hword
  have hreading := reading_magnitude hf word
  have hnumber : f.magnitude word ≠ .notANumber → f.quieted word = word := quieted_of_ne
  generalize hmagnitude : f.magnitude word = magnitude at *
  cases hreading with
  | zero e hzero =>
    have hround : f.roundDecimal 0 (-(0 : Nat)) = 0 := by
      rw [roundDecimal, if_pos (Or.inl rfl)]
    rw [text_zero hmagnitude, read?_signed_text (Or.inl rfl), hround, ← hzero, hsigned,
      hnumber Magnitude.noConfusion]
  | finite hm he hwordOf hlt =>
    obtain ⟨coefficient, power, htext, hnear, -⟩ := text_finite hf hm hmagnitude
    rw [← ofScaled_ratio] at hnear
    rw [htext, read?_signed_text (ofScaled_isLowest _ _), roundDecimal_of_near hf hm he hnear,
      ← hwordOf, Nat.min_eq_right hlt.le, hsigned, hnumber Magnitude.noConfusion]
  | infinite hinfinite =>
    rw [text_infinite hmagnitude, read?_infinite, ← hinfinite, hsigned,
      hnumber Magnitude.noConfusion]
  | notANumber => rw [text_notANumber hmagnitude, read?_notANumber, quieted, if_pos hmagnitude]

/-! ## The length of a text -/

lemma length_ofScaled_le (coefficient : Nat) (power : Int) :
    (Positional.ofScaled coefficient power).text.length ≤
      max ((-power).toNat + 1) (digitCount coefficient + power.toNat) + 1 := by
  have hlength := (Positional.ofScaled coefficient power).length_text_le
  have hplaces := Positional.lowest_places_le
    ⟨coefficient * Nat.pow 10 power.toNat, (-power).toNat⟩
  have hcoefficient := Positional.lowest_coefficient_le
    ⟨coefficient * Nat.pow 10 power.toNat, (-power).toNat⟩
  rw [← Positional.ofScaled] at hplaces hcoefficient
  dsimp only [Nat.pow_eq] at hplaces hcoefficient
  have hmono := digitCount_mono hcoefficient
  have hdigits := digitCount_mul_le coefficient power.toNat
  omega

/-- **No text is longer.** -/
theorem length_text_le (hf : f.Fits64) (word : Nat) : (f.text word).length ≤ 377 := by
  have hsign := length_signed_le (f.isNegative word)
  have hreading := reading_magnitude hf word
  generalize hmagnitude : f.magnitude word = magnitude at *
  cases hreading with
  | zero e hzero =>
    rw [text_zero hmagnitude]
    exact (hsign _).trans (by decide)
  | @finite m e hm he hwordOf hlt =>
    obtain ⟨coefficient, power, htext, hnear, hpower⟩ := text_finite hf hm hmagnitude
    have hpos := hnear.coefficient_pos hm
    obtain ⟨hleast, hgreatest⟩ := value_bounds hf hm he
    have hv : (0 : ℚ) < m * 2 ^ e := lt_of_lt_of_le (by positivity) hleast
    -- the order of the magnitude leaves no room for more digits on either side of the point
    have hlow : -358 ≤ Int.log 10 ((m : ℚ) * 2 ^ e) :=
      (Int.zpow_le_iff_le_log (by decide) hv).1 hleast
    have hhigh : Int.log 10 ((m : ℚ) * 2 ^ e) < 342 :=
      (Int.lt_zpow_iff_log_lt (by decide) hv).1 hgreatest
    have hdigits : digitCount coefficient + power ≤ Int.log 10 ((m : ℚ) * 2 ^ e) + 1 + 1 :=
      digitCount_add_le hpos
        (lt_zpow_succ (Int.lt_zpow_succ_log_self (by decide) _) (hnear.bounds hm).2)
    have hlength := length_ofScaled_le coefficient power
    rw [htext]
    refine (hsign _).trans ?_
    omega
  | infinite hinfinite =>
    rw [text_infinite hmagnitude]
    exact (hsign _).trans (by decide)
  | notANumber =>
    rw [text_notANumber hmagnitude]
    decide

end QuadBase.Value.BinaryFormat
