import Mathlib.Data.Int.Log
import Mathlib.Algebra.Order.Field.Power
import Mathlib.Data.Rat.Floor
import Mathlib.Tactic.FieldSimp
import Mathlib.Tactic.Linarith
import Mathlib.Tactic.Positivity
import QuadBase.Proofs.Value.BinaryFloat

/-!
# Rounding to the nearest word

All rounding is done on natural numbers, numerator and denominator with their powers of two on the
side where the exponent is not negative.  Here the same is said about rational numbers.

`Near f m e q` says that `q` lies in the interval that belongs to the magnitude `m · 2 ^ e`: half way
to the neighbours on both sides, the ends included for an even significand.  **Everything in the
interval rounds to the magnitude** (`round_of_near`).
-/

namespace QuadBase.Value

variable {base numerator denominator : Nat} {e : Int}

/-! ## Powers on both sides of a ratio -/

lemma cast_natPow_pos (h : 0 < base) (n : Nat) : (0 : ℚ) < (Nat.pow base n : Nat) := by
  exact_mod_cast Nat.pow_pos h

/-- A power, as numerator and denominator have it. -/
lemma natPow_div_natPow (base : Nat) (e : Int) :
    ((Nat.pow base e.toNat : Nat) : ℚ) / (Nat.pow base (-e).toNat : Nat) = (base : ℚ) ^ e := by
  rcases Int.le_total 0 e with hle | hle
  · obtain ⟨n, rfl⟩ := Int.eq_ofNat_of_zero_le hle
    simp
  · obtain ⟨n, hn⟩ := Int.eq_ofNat_of_zero_le (Int.neg_nonneg_of_nonpos hle)
    obtain rfl : e = -n := by omega
    simp

/-- A ratio divided by a power. -/
lemma ratio_div_zpow (h : 0 < base) (numerator denominator : Nat) (e : Int) :
    ((numerator * Nat.pow base (-e).toNat : Nat) : ℚ) / (denominator * Nat.pow base e.toNat : Nat) =
      numerator / denominator / (base : ℚ) ^ e := by
  have hup := cast_natPow_pos h e.toNat
  have hdown := cast_natPow_pos h (-e).toNat
  rw [← natPow_div_natPow, Nat.cast_mul, Nat.cast_mul]
  field_simp

/-- A ratio multiplied by a power. -/
lemma ratio_mul_zpow (base numerator denominator : Nat) (e : Int) :
    ((numerator * Nat.pow base e.toNat : Nat) : ℚ) / (denominator * Nat.pow base (-e).toNat : Nat) =
      numerator / denominator * (base : ℚ) ^ e := by
  rw [← natPow_div_natPow, Nat.cast_mul, Nat.cast_mul, mul_div_mul_comm]

/-- A number multiplied by a power of ten, as decimals have it. -/
lemma ratio_ten_zpow (coefficient : Nat) (e : Int) :
    ((coefficient * Nat.pow 10 e.toNat : Nat) : ℚ) / (Nat.pow 10 (-e).toNat : Nat) =
      coefficient * 10 ^ e := by
  simpa using ratio_mul_zpow 10 coefficient 1 e

/-! ## The binary order of magnitude -/

/-- The logarithm is determined by the powers on both sides. -/
lemma log_eq_of_zpow (h : 1 < base) {q : ℚ} (hpos : 0 < q) (hlow : (base : ℚ) ^ e ≤ q)
    (hhigh : q < (base : ℚ) ^ (e + 1)) : Int.log base q = e := by
  have hge := (Int.zpow_le_iff_le_log h hpos).1 hlow
  have hlt := (Int.lt_zpow_iff_log_lt h hpos).1 hhigh
  omega

namespace BinaryFormat

theorem floorLog2_eq (hnumerator : 0 < numerator) (hdenominator : 0 < denominator) :
    floorLog2 numerator denominator = Int.log 2 ((numerator : ℚ) / denominator) := by
  have hn : (0 : ℚ) < numerator := by exact_mod_cast hnumerator
  have hd : (0 : ℚ) < denominator := by exact_mod_cast hdenominator
  have hpos : (0 : ℚ) < (numerator : ℚ) / denominator := div_pos hn hd
  -- the quotient lies between the quotients of the powers around its parts
  have hlow : (2 : ℚ) ^ ((numerator.log2 : Int) - denominator.log2 - 1) ≤
      numerator / denominator := by
    have hle : ((2 : ℚ) ^ numerator.log2) ≤ numerator := by
      exact_mod_cast Nat.log2_self_le hnumerator.ne'
    have hlt : (denominator : ℚ) < 2 ^ (denominator.log2 + 1) := by
      exact_mod_cast Nat.lt_log2_self
    have hsplit : ((numerator.log2 : Int) - denominator.log2 - 1) =
        (numerator.log2 : Int) - ((denominator.log2 + 1 : Nat) : Int) := by omega
    rw [hsplit, zpow_sub₀ two_ne_zero, zpow_natCast, zpow_natCast]
    exact div_le_div₀ hn.le hle hd hlt.le
  have hhigh : (numerator : ℚ) / denominator <
      (2 : ℚ) ^ ((numerator.log2 : Int) - denominator.log2 + 1) := by
    have hlt : (numerator : ℚ) < 2 ^ (numerator.log2 + 1) := by
      exact_mod_cast Nat.lt_log2_self
    have hle : ((2 : ℚ) ^ denominator.log2) ≤ denominator := by
      exact_mod_cast Nat.log2_self_le hdenominator.ne'
    have hsplit : ((numerator.log2 : Int) - denominator.log2 + 1) =
        ((numerator.log2 + 1 : Nat) : Int) - (denominator.log2 : Int) := by omega
    rw [hsplit, zpow_sub₀ two_ne_zero, zpow_natCast, zpow_natCast]
    exact div_lt_div₀ hlt hle (by positivity) (by positivity)
  rw [floorLog2]
  generalize (numerator.log2 : Int) - denominator.log2 = guess at *
  have hcompare : denominator * Nat.pow 2 guess.toNat ≤ numerator * Nat.pow 2 (-guess).toNat ↔
      (2 : ℚ) ^ guess ≤ numerator / denominator := by
    have hup := cast_natPow_pos (show 0 < 2 by decide) (-guess).toNat
    have hpower := natPow_div_natPow 2 guess
    rw [Nat.cast_ofNat] at hpower
    rw [← hpower, div_le_div_iff₀ hup hd, mul_comm denominator]
    exact_mod_cast Iff.rfl
  symm
  split
  next hle =>
    exact log_eq_of_zpow (by decide) hpos (by exact_mod_cast hcompare.1 hle)
      (by exact_mod_cast hhigh)
  next hlt =>
    rw [hcompare, not_le] at hlt
    refine log_eq_of_zpow (by decide) hpos (by exact_mod_cast hlow) ?_
    rw [sub_add_cancel]
    exact_mod_cast hlt

end BinaryFormat

/-! ## Half to even -/

/-- What lies within a half of a number is rounded to it, from half way if it is even. -/
lemma roundHalfEven_eq {n : Nat} (hpos : 0 < denominator)
    (hlow : (n : ℚ) - 1 / 2 ≤ numerator / denominator)
    (hhigh : (numerator : ℚ) / denominator ≤ n + 1 / 2)
    (htie : n % 2 = 0 ∨ ((n : ℚ) - 1 / 2 < numerator / denominator ∧
      (numerator : ℚ) / denominator < n + 1 / 2)) :
    roundHalfEven numerator denominator = n := by
  have hd : (0 : ℚ) < denominator := by exact_mod_cast hpos
  -- without fractions
  rw [le_div_iff₀ hd] at hlow
  rw [div_le_iff₀ hd] at hhigh
  rw [lt_div_iff₀ hd, div_lt_iff₀ hd] at htie
  have hlow' : 2 * (n * denominator) ≤ 2 * numerator + denominator := by
    have : (2 : ℚ) * (n * denominator) ≤ 2 * numerator + denominator := by linarith
    exact_mod_cast this
  have hhigh' : 2 * numerator ≤ 2 * (n * denominator) + denominator := by
    have : (2 : ℚ) * numerator ≤ 2 * (n * denominator) + denominator := by linarith
    exact_mod_cast this
  have htie' : n % 2 = 0 ∨ (2 * (n * denominator) < 2 * numerator + denominator ∧
      2 * numerator < 2 * (n * denominator) + denominator) := by
    refine htie.imp_right fun ⟨hl, hh⟩ => ⟨?_, ?_⟩
    · have : (2 : ℚ) * (n * denominator) < 2 * numerator + denominator := by linarith
      exact_mod_cast this
    · have : (2 : ℚ) * numerator < 2 * (n * denominator) + denominator := by linarith
      exact_mod_cast this
  have hdivision := Nat.div_add_mod numerator denominator
  have hrest := Nat.mod_lt numerator hpos
  rw [mul_comm] at hdivision
  rw [roundHalfEven]
  generalize numerator / denominator = quotient at *
  generalize numerator % denominator = rest at *
  have hquotient : n = quotient ∨ n = quotient + 1 := by
    rcases Nat.lt_or_ge n quotient with hless | hge
    · have := Nat.mul_le_mul_right denominator (Nat.succ_le_of_lt hless)
      rw [Nat.succ_mul] at this
      omega
    · rcases Nat.lt_or_ge (quotient + 1) n with hmore | hle
      · have := Nat.mul_le_mul_right denominator (Nat.succ_le_of_lt hmore)
        rw [Nat.succ_mul, Nat.add_mul, Nat.one_mul] at this
        omega
      · omega
  rcases hquotient with rfl | rfl
  · rw [if_pos]
    omega
  · rw [Nat.add_mul, Nat.one_mul] at *
    rw [if_neg]
    omega

namespace BinaryFormat

variable {f : BinaryFormat} {m : Nat} {q : ℚ}

/-! ## The interval of a magnitude -/

/-- The magnitudes `m · 2 ^ e` of a format: only the least exponent has small significands. -/
structure Represented (f : BinaryFormat) (m : Nat) (e : Int) : Prop where
  pos : 0 < m
  lt : m < 2 ^ (f.fractionBits + 1)
  least : f.leastExponent ≤ e
  normal : e = f.leastExponent ∨ 2 ^ f.fractionBits ≤ m

/-- The word of a magnitude. -/
def wordOf (f : BinaryFormat) (m : Nat) (e : Int) : Nat :=
  (e - f.leastExponent).toNat * 2 ^ f.fractionBits + m

/-- How far the interval of a magnitude reaches down, in quarters of its last bit. -/
def reachBelow (f : BinaryFormat) (m : Nat) (e : Int) : Nat :=
  if m = 2 ^ f.fractionBits ∧ f.leastExponent < e then 1 else 2

/-- The number lies in the interval of a magnitude. -/
def Near (f : BinaryFormat) (m : Nat) (e : Int) (q : ℚ) : Prop :=
  if m % 2 = 0 then
    (m : ℚ) - f.reachBelow m e / 4 ≤ q / 2 ^ e ∧ q / 2 ^ e ≤ m + 1 / 2
  else
    (m : ℚ) - f.reachBelow m e / 4 < q / 2 ^ e ∧ q / 2 ^ e < m + 1 / 2

lemma reachBelow_le (f : BinaryFormat) (m : Nat) (e : Int) : (f.reachBelow m e : ℚ) ≤ 2 := by
  rw [reachBelow]
  split <;> norm_num

lemma Near.low (h : f.Near m e q) : (m : ℚ) - f.reachBelow m e / 4 ≤ q / 2 ^ e := by
  rw [Near] at h
  split at h
  · exact h.1
  · exact h.1.le

lemma Near.high (h : f.Near m e q) : q / 2 ^ e ≤ m + 1 / 2 := by
  rw [Near] at h
  split at h
  · exact h.2
  · exact h.2.le

lemma Near.tie (h : f.Near m e q) : m % 2 = 0 ∨
    ((m : ℚ) - f.reachBelow m e / 4 < q / 2 ^ e ∧ q / 2 ^ e < m + 1 / 2) := by
  rw [Near] at h
  split at h
  next heven => exact Or.inl heven
  next => exact Or.inr h

lemma Near.pos (h : f.Near m e q) (hm : f.Represented m e) : 0 < q := by
  have hone : (1 : ℚ) ≤ m := by exact_mod_cast hm.pos
  have hlow := h.low
  have hreach := reachBelow_le f m e
  have hdiv : 0 < q / 2 ^ e := by linarith
  exact (div_pos_iff_of_pos_right (by positivity)).1 hdiv

/-- The word of a ratio is known from its order of magnitude and its significand. -/
lemma round_eq_of_log {unit : Int} {significand : Nat} (hn : 0 < numerator) (hd : 0 < denominator)
    (hunit : max f.leastExponent (Int.log 2 ((numerator : ℚ) / denominator) - f.fractionBits) = unit)
    (hlow : (significand : ℚ) - 1 / 2 ≤ numerator / denominator / 2 ^ unit)
    (hhigh : (numerator : ℚ) / denominator / 2 ^ unit ≤ significand + 1 / 2)
    (htie : significand % 2 = 0 ∨
      ((significand : ℚ) - 1 / 2 < numerator / denominator / 2 ^ unit ∧
        (numerator : ℚ) / denominator / 2 ^ unit < significand + 1 / 2)) :
    f.round numerator denominator = min f.infinity (f.wordOf significand unit) := by
  have hsignificand : roundHalfEven (numerator * Nat.pow 2 (-unit).toNat)
      (denominator * Nat.pow 2 unit.toNat) = significand := by
    have hratio := ratio_div_zpow (show 0 < 2 by decide) numerator denominator unit
    rw [Nat.cast_ofNat] at hratio
    have hpos : 0 < denominator * Nat.pow 2 unit.toNat := Nat.mul_pos hd (Nat.pow_pos (by decide))
    rw [← hratio] at hlow hhigh htie
    exact roundHalfEven_eq hpos hlow hhigh htie
  rw [round, if_neg hn.ne', if_neg hd.ne', floorLog2_eq hn hd]
  simp only [hunit, hsignificand]
  rfl

/-- Below the interval of a power of two the last bit has half the weight. -/
lemma wordOf_pred (he : f.leastExponent < e) :
    f.wordOf (2 ^ (f.fractionBits + 1)) (e - 1) = f.wordOf (2 ^ f.fractionBits) e := by
  obtain ⟨n, hn⟩ := Int.eq_ofNat_of_zero_le (show 0 ≤ e - 1 - f.leastExponent by omega)
  have hsucc : e - f.leastExponent = ((n + 1 : Nat) : Int) := by omega
  rw [wordOf, wordOf, hn, hsucc, Int.toNat_natCast, Int.toNat_natCast]
  ring

/-- Below the binade of a power of two the last bit has half the weight, and what is near enough
rounds up to the power. -/
lemma round_of_below (he : f.leastExponent < e) (hn : 0 < numerator) (hd : 0 < denominator)
    (hlow : (2 : ℚ) ^ f.fractionBits - 1 / 4 ≤ numerator / denominator / 2 ^ e)
    (hhigh : (numerator : ℚ) / denominator / 2 ^ e < 2 ^ f.fractionBits) :
    f.round numerator denominator = min f.infinity (f.wordOf (2 ^ f.fractionBits) e) := by
  have hpower : (0 : ℚ) < 2 ^ e := by positivity
  have hone : (1 : ℚ) ≤ 2 ^ f.fractionBits := one_le_pow₀ one_le_two
  have hq : (0 : ℚ) < numerator / denominator :=
    div_pos (by exact_mod_cast hn) (by exact_mod_cast hd)
  have hdouble : (numerator : ℚ) / denominator / 2 ^ (e - 1) =
      2 * (numerator / denominator / 2 ^ e) := by
    rw [zpow_sub_one₀ two_ne_zero]
    field_simp
  have hlog : Int.log 2 ((numerator : ℚ) / denominator) = e + f.fractionBits - 1 := by
    refine log_eq_of_zpow (by decide) hq ?_ ?_
    · have hpred : (2 : ℚ) ^ (e + f.fractionBits - 1) = 2 ^ f.fractionBits / 2 * 2 ^ e := by
        rw [zpow_sub_one₀ two_ne_zero, zpow_add₀ two_ne_zero, zpow_natCast]
        ring
      rw [Nat.cast_ofNat, hpred, ← le_div_iff₀ hpower]
      linarith
    · rw [Nat.cast_ofNat, sub_add_cancel, zpow_add₀ two_ne_zero, zpow_natCast, mul_comm,
        ← div_lt_iff₀ hpower]
      exact hhigh
  rw [← wordOf_pred he]
  refine round_eq_of_log hn hd ?_ ?_ ?_ (Or.inl ?_)
  · rw [hlog]
    omega
  · rw [hdouble]
    push_cast [pow_succ]
    linarith
  · rw [hdouble]
    push_cast [pow_succ]
    linarith
  · rw [pow_succ, Nat.mul_mod_left]

/-- **Everything near a magnitude rounds to it.** -/
theorem round_of_near (hm : f.Represented m e) (hn : 0 < numerator) (hd : 0 < denominator)
    (h : f.Near m e ((numerator : ℚ) / denominator)) :
    f.round numerator denominator = min f.infinity (f.wordOf m e) := by
  have hq := h.pos hm
  have hlow := h.low
  have hhigh := h.high
  have hreach := reachBelow_le f m e
  have hpower : (0 : ℚ) < 2 ^ e := by positivity
  have hleast := hm.least
  have hbinade : (2 : ℚ) ^ (e + f.fractionBits) = 2 ^ f.fractionBits * 2 ^ e := by
    rw [zpow_add₀ two_ne_zero, zpow_natCast, mul_comm]
  -- as long as the last bit has the weight `2 ^ e`, the nearest significand is `m`
  have hsame : max f.leastExponent
      (Int.log 2 ((numerator : ℚ) / denominator) - f.fractionBits) = e →
      f.round numerator denominator = min f.infinity (f.wordOf m e) := by
    intro hunit
    refine round_eq_of_log hn hd hunit (by linarith) hhigh (h.tie.imp_right ?_)
    rintro ⟨hl, hh⟩
    exact ⟨by linarith, hh⟩
  rcases le_or_gt ((2 : ℚ) ^ (e + f.fractionBits)) (numerator / denominator) with hin | hbelow
  · have hlt : (m : ℚ) + 1 ≤ 2 ^ (f.fractionBits + 1) := by exact_mod_cast hm.lt
    have htop : (numerator : ℚ) / denominator < 2 ^ (e + f.fractionBits + 1) := by
      rw [zpow_add_one₀ two_ne_zero, hbinade, mul_right_comm, ← div_lt_iff₀ hpower, ← pow_succ]
      linarith
    have hlog : Int.log 2 ((numerator : ℚ) / denominator) = e + f.fractionBits :=
      log_eq_of_zpow (by decide) hq (by exact_mod_cast hin) (by exact_mod_cast htop)
    refine hsame ?_
    rw [hlog]
    omega
  · have hlog : Int.log 2 ((numerator : ℚ) / denominator) < e + f.fractionBits :=
      (Int.lt_zpow_iff_log_lt (by decide) hq).1 (by exact_mod_cast hbelow)
    rcases eq_or_lt_of_le hleast with heq | hnext
    · refine hsame ?_
      omega
    · -- only the interval of the least significand reaches down to the next binade
      rw [hbinade, ← div_lt_iff₀ hpower] at hbelow
      obtain rfl : m = 2 ^ f.fractionBits := by
        refine le_antisymm (not_lt.1 fun hmore => ?_) (hm.normal.resolve_left hnext.ne')
        have : (2 : ℚ) ^ f.fractionBits + 1 ≤ m := by exact_mod_cast hmore
        linarith
      rw [reachBelow, if_pos ⟨rfl, hnext⟩] at hlow
      push_cast at hlow
      exact round_of_below hnext hn hd hlow hbelow

end BinaryFormat

end QuadBase.Value
