import Mathlib.Algebra.Order.Floor.Semifield
import QuadBase.Proofs.Value.Positional
import QuadBase.Proofs.Value.Rounding
import QuadBase.Value.Shortest

/-!
# Shortest decimals

The search for a shortest decimal compares natural numbers; `contains_rescale_iff` says that these
comparisons decide whether a decimal is near the magnitude.  `order_eq` says where the search
begins: one above the decimal logarithm of the magnitude.

**Seventeen digits are enough** (`exists_near_grid`): then the grid is so fine that the nearest of
its points lies in the interval.  So the search finds a decimal, and what it finds is near the
magnitude (`shortest?_spec`).
-/

namespace QuadBase.Value

namespace Interval

open BinaryFormat

variable {f : BinaryFormat} {i : Interval} {m n : Nat} {e grid : Int}

/-! ## Comparisons -/

/-- Both sides of a comparison, over one denominator. -/
lemma exists_common_denominator (e grid : Int) : ∃ common : ℚ, 0 < common ∧
    (∀ a : Nat, (a : ℚ) / 4 =
      (a * Nat.pow 2 e.toNat * Nat.pow 10 (-grid).toNat : Nat) / common) ∧
    ∀ n : Nat, (n : ℚ) * 10 ^ grid / 2 ^ e =
      (n * (4 * Nat.pow 2 (-e).toNat * Nat.pow 10 grid.toNat) : Nat) / common := by
  have hbinary := natPow_div_natPow 2 e
  have hdecimal := natPow_div_natPow 10 grid
  have h₁ := cast_natPow_pos (show 0 < 2 by decide) e.toNat
  have h₂ := cast_natPow_pos (show 0 < 2 by decide) (-e).toNat
  have h₃ := cast_natPow_pos (show 0 < 10 by decide) grid.toNat
  have h₄ := cast_natPow_pos (show 0 < 10 by decide) (-grid).toNat
  rw [Nat.cast_ofNat] at hbinary hdecimal
  rw [← hbinary, ← hdecimal]
  refine ⟨4 * (Nat.pow 2 e.toNat : Nat) * (Nat.pow 10 (-grid).toNat : Nat), by positivity, ?_, ?_⟩
  · intro a
    simp only [Nat.cast_mul]
    field_simp
  · intro n
    simp only [Nat.cast_mul, Nat.cast_ofNat]
    field_simp

/-- **The interval on a grid has the points that are near the magnitude.** -/
theorem contains_rescale_iff (hm : 0 < m) :
    ((ofFinite f m e).rescale grid).contains n = true ↔ f.Near m e (n * 10 ^ grid) := by
  obtain ⟨common, hpos, hends, hpoint⟩ := exists_common_denominator e grid
  have hreach : (if m = Nat.pow 2 f.fractionBits ∧ f.leastExponent < e then 1 else 2) =
      f.reachBelow m e := rfl
  have hle : f.reachBelow m e ≤ 2 := by
    rw [reachBelow]
    split <;> decide
  have hlow : (m : ℚ) - f.reachBelow m e / 4 = ((4 * m - f.reachBelow m e : Nat) : ℚ) / 4 := by
    rw [Nat.cast_sub (by omega)]
    push_cast
    ring
  have hhigh : (m : ℚ) + 1 / 2 = ((4 * m + 2 : Nat) : ℚ) / 4 := by
    push_cast
    ring
  rw [Near, hlow, hhigh, hpoint, hends, hends]
  simp only [div_le_div_iff_of_pos_right hpos, div_lt_div_iff_of_pos_right hpos, Nat.cast_le,
    Nat.cast_lt]
  simp only [contains, rescale, ofFinite, hreach]
  split
  next heven =>
    rw [if_pos (of_decide_eq_true heven), Bool.and_eq_true, decide_eq_true_eq, decide_eq_true_eq]
  next hodd =>
    rw [if_neg (by simpa using hodd), Bool.and_eq_true, decide_eq_true_eq, decide_eq_true_eq]

/-! ## The decimal order of magnitude -/

lemma digitCount_bounds (h : 0 < n) :
    (10 : ℚ) ^ ((digitCount n : Int) - 1) ≤ n ∧ (n : ℚ) < 10 ^ (digitCount n : Int) := by
  have hpos := digitCount_pos n
  obtain ⟨k, hk⟩ := Nat.exists_eq_add_of_lt hpos
  rw [Nat.zero_add] at hk
  have hlt : n < 10 ^ digitCount n := (digitCount_le_iff hpos).1 (Nat.le_refl _)
  have hle : 10 ^ k ≤ n := by
    rcases Nat.eq_zero_or_pos k with rfl | hk'
    · exact h
    · rw [← not_lt, ← digitCount_le_iff hk']
      omega
  rw [hk] at hlt ⊢
  push_cast
  rw [add_sub_cancel_right, zpow_natCast]
  exact ⟨by exact_mod_cast hle, by exact_mod_cast hlt⟩

/-- The whole part of a ratio. -/
lemma cast_div_bounds (n denominator : Nat) :
    ((n / denominator : Nat) : ℚ) ≤ n / denominator ∧
      (n : ℚ) / denominator < (n / denominator : Nat) + 1 := by
  rw [← Nat.floor_div_eq_div (K := ℚ)]
  exact ⟨Nat.floor_le (by positivity), Nat.lt_floor_add_one _⟩

/-- Less than one: as many zeros follow the point as the inverse, rounded up, has digits below it. -/
lemma log_of_lt {numerator denominator : Nat} (hpos : 0 < numerator)
    (hlt : numerator < denominator) :
    Int.log 10 ((numerator : ℚ) / denominator) =
      -digitCount ((denominator + numerator - 1) / numerator - 1) := by
  have hn : (0 : ℚ) < numerator := by exact_mod_cast hpos
  have hd : (0 : ℚ) < denominator := by exact_mod_cast hpos.trans hlt
  have hdivision := Nat.div_add_mod (denominator + numerator - 1) numerator
  have hrest := Nat.mod_lt (denominator + numerator - 1) hpos
  have hmore : 1 < (denominator + numerator - 1) / numerator := by
    rw [Nat.lt_div_iff_mul_lt hpos]
    omega
  obtain ⟨r, hr⟩ := Nat.exists_eq_add_of_lt hmore
  rw [hr, Nat.mul_add, Nat.mul_one] at hdivision
  rw [hr, Nat.add_sub_cancel]
  obtain ⟨hlow, hhigh⟩ := digitCount_bounds (n := 1 + r) (by omega)
  generalize digitCount (1 + r) = count at *
  have hbelow : ((1 + r : Nat) : ℚ) * numerator < denominator := by
    rw [mul_comm]
    exact_mod_cast (by omega : numerator * (1 + r) < denominator)
  have habove : (denominator : ℚ) ≤ ((1 + r : Nat) + 1) * numerator := by
    have : denominator ≤ numerator * (1 + r) + numerator := by omega
    rw [add_one_mul, mul_comm]
    exact_mod_cast this
  have hnext : ((1 + r : Nat) : ℚ) + 1 ≤ 10 ^ (count : Int) := by
    rw [zpow_natCast] at hhigh ⊢
    exact_mod_cast hhigh
  refine log_eq_of_zpow (by decide) (div_pos hn hd) ?_ ?_
  · rw [Nat.cast_ofNat, le_div_iff₀ hd, zpow_neg, inv_mul_le_iff₀ (by positivity)]
    exact habove.trans (by gcongr)
  · rw [Nat.cast_ofNat, div_lt_iff₀ hd, show -(count : Int) + 1 = -((count : Int) - 1) by ring,
      zpow_neg, lt_inv_mul_iff₀ (by positivity)]
    exact lt_of_le_of_lt (by gcongr) hbelow

/-- **The search begins one above the decimal logarithm.** -/
theorem order_eq (hv : 0 < i.value) (hd : 0 < i.denominator) :
    i.order = Int.log 10 ((i.value : ℚ) / i.denominator) + 1 := by
  have hvalue : (0 : ℚ) < i.value := by exact_mod_cast hv
  have hdenominator : (0 : ℚ) < i.denominator := by exact_mod_cast hd
  rw [order]
  split
  next hle =>
    obtain ⟨hlow, hhigh⟩ := digitCount_bounds (Nat.div_pos hle hd)
    obtain ⟨hfloor, hceil⟩ := cast_div_bounds i.value i.denominator
    have hnext : ((i.value / i.denominator : Nat) : ℚ) + 1 ≤
        10 ^ (digitCount (i.value / i.denominator) : Int) := by
      rw [zpow_natCast] at hhigh ⊢
      exact_mod_cast hhigh
    rw [log_eq_of_zpow (e := (digitCount (i.value / i.denominator) : Int) - 1) (by decide)
      (div_pos hvalue hdenominator) (by push_cast; linarith)
      (by push_cast; rw [sub_add_cancel]; linarith), sub_add_cancel]
  next hless =>
    rw [log_of_lt hv (Nat.lt_of_not_le hless)]
    omega

/-- The power of ten that the magnitude has reached lies on every finer grid. -/
lemma reached_le {k : Nat} (hm : f.Represented m e)
    (hgrid : grid = Int.log 10 ((m : ℚ) * 2 ^ e) - k) : (10 : ℚ) ^ grid * 10 ^ k ≤ m * 2 ^ e := by
  have hpos : (0 : ℚ) < m * 2 ^ e := by
    have : (0 : ℚ) < m := by exact_mod_cast hm.pos
    positivity
  have hlog := Int.zpow_log_le_self (b := 10) (by decide) hpos
  rw [Nat.cast_ofNat] at hlog
  rw [← zpow_natCast, ← zpow_add₀ (by decide), hgrid, sub_add_cancel]
  exact hlog

/-! ## Enough digits -/

/-- Near a magnitude, in units of its last bit. -/
lemma near_of_lt {x : ℚ} (hlow : (m : ℚ) - f.reachBelow m e / 4 < x) (hhigh : x < m + 1 / 2) :
    f.Near m e (x * 2 ^ e) := by
  have hpower : (2 : ℚ) ^ e ≠ 0 := by positivity
  rw [Near, mul_div_cancel_right₀ _ hpower]
  split
  · exact ⟨hlow.le, hhigh.le⟩
  · exact ⟨hlow, hhigh⟩

/-- A significand has less than seventeen digits, and one digit less below a power of two. -/
lemma two_mul_lt_reachBelow (hm : f.Represented m e) (hbits : f.fractionBits ≤ 52) :
    2 * (m : ℚ) < f.reachBelow m e * 10 ^ 16 := by
  have hbound : 2 ^ f.fractionBits ≤ 2 ^ 52 := Nat.pow_le_pow_right (by decide) hbits
  have hlt := hm.lt
  rw [Nat.pow_succ] at hlt
  have hnat : 2 * m < f.reachBelow m e * 10 ^ 16 := by
    rw [reachBelow]
    split <;> omega
  exact_mod_cast hnat

/-- **With seventeen digits one of the neighbours on the grid is near the magnitude.** -/
theorem exists_near_grid (hm : f.Represented m e) (hbits : f.fractionBits ≤ 52)
    (hgrid : (10 : ℚ) ^ grid * 10 ^ 16 ≤ m * 2 ^ e) (hlow : (n : ℚ) * 10 ^ grid ≤ m * 2 ^ e)
    (hhigh : (m : ℚ) * 2 ^ e < (n + 1) * 10 ^ grid) :
    f.Near m e (n * 10 ^ grid) ∨ f.Near m e ((n + 1 : Nat) * 10 ^ grid) := by
  have hpower : (0 : ℚ) < 2 ^ e := by positivity
  have hreach := two_mul_lt_reachBelow hm hbits
  have hreach' := reachBelow_le f m e
  -- everything in units of the last bit
  obtain ⟨step, hstep⟩ : ∃ step : ℚ, (10 : ℚ) ^ grid = step * 2 ^ e :=
    ⟨10 ^ grid / 2 ^ e, (div_mul_cancel₀ _ hpower.ne').symm⟩
  rw [hstep, mul_right_comm, mul_le_mul_iff_left₀ hpower] at hgrid
  rw [hstep, ← mul_assoc, mul_le_mul_iff_left₀ hpower] at hlow
  rw [hstep, ← mul_assoc, mul_lt_mul_iff_left₀ hpower] at hhigh
  rw [hstep, Nat.cast_add_one, ← mul_assoc, ← mul_assoc]
  rcases le_total ((m : ℚ) - n * step) (step / 2) with hbelow | habove
  · exact Or.inl (near_of_lt (by linarith) (by linarith))
  · exact Or.inr (near_of_lt (by linarith) (by linarith))

/-! ## The search -/

lemma isSome_nearest? (h : i.contains (i.value / i.denominator) = true ∨
    i.contains (i.value / i.denominator + 1) = true) : i.nearest?.isSome = true := by
  simp only [nearest?]
  split
  next => rfl
  next hup =>
    split
    next => rfl
    next hbelow =>
      -- then the upper neighbour is in the interval, and nothing speaks against it
      rw [Bool.not_eq_true] at hbelow
      have habove := h.resolve_left (by rw [hbelow]; exact Bool.false_ne_true)
      rw [hbelow, habove] at hup
      exact absurd rfl hup

lemma ofFinite_ratio (f : BinaryFormat) (m : Nat) (e : Int) :
    ((ofFinite f m e).value : ℚ) / (ofFinite f m e).denominator = m * 2 ^ e := by
  have hratio := ratio_mul_zpow 2 (4 * m) 4 e
  rw [Nat.cast_ofNat] at hratio
  simp only [ofFinite]
  rw [hratio]
  push_cast
  ring

lemma rescale_ratio (i : Interval) (grid : Int) :
    ((i.rescale grid).value : ℚ) / (i.rescale grid).denominator =
      i.value / i.denominator / 10 ^ grid := by
  have hratio := ratio_div_zpow (show 0 < 10 by decide) i.value i.denominator grid
  rw [Nat.cast_ofNat] at hratio
  exact hratio

lemma order_ofFinite (hm : 0 < m) :
    (ofFinite f m e).order = Int.log 10 ((m : ℚ) * 2 ^ e) + 1 := by
  have hup : 0 < Nat.pow 2 e.toNat := Nat.pow_pos (by decide)
  have hdown : 0 < Nat.pow 2 (-e).toNat := Nat.pow_pos (by decide)
  have hvalue : 0 < (ofFinite f m e).value :=
    Nat.mul_pos (Nat.mul_pos (by decide) hm) hup
  have hdenominator : 0 < (ofFinite f m e).denominator := Nat.mul_pos (by decide) hdown
  rw [order_eq hvalue hdenominator, ofFinite_ratio]

lemma digits?_eq_some_iff {power : Int} :
    i.digits? grid = some (n, power) ↔ (i.rescale grid).nearest? = some n ∧ grid = power := by
  rw [digits?, Option.map_eq_some_iff]
  constructor
  · rintro ⟨found, hfound, hpair⟩
    obtain ⟨rfl, rfl⟩ := Prod.mk.inj hpair
    exact ⟨hfound, rfl⟩
  · rintro ⟨hfound, rfl⟩
    exact ⟨n, hfound, rfl⟩

/-- The search stops at the first number of digits that is enough. -/
lemma exists_of_shortest? {found : Nat × Int} (h : i.shortest? = some found) :
    ∃ count, 0 < count ∧ count ≤ maxDigits ∧ i.digits? (i.order - count) = some found ∧
      ∀ fewer, 0 < fewer → fewer < count → i.digits? (i.order - fewer) = none := by
  rw [shortest?, List.findSome?_eq_some_iff] at h
  obtain ⟨earlier, count, later, hcounts, hfound, hnone⟩ := h
  have hget (k : Nat) (hk : k < maxDigits) : (earlier ++ count :: later)[k]? = some (k + 1) := by
    rw [← hcounts, List.getElem?_map, List.getElem?_range hk]
    rfl
  have hlength : earlier.length < maxDigits := by
    have hsize := congrArg List.length hcounts
    rw [List.length_map, List.length_range, List.length_append, List.length_cons] at hsize
    omega
  obtain rfl : count = earlier.length + 1 := by
    have hcount := hget _ hlength
    rw [List.getElem?_append_right (le_refl _), Nat.sub_self, List.getElem?_cons_zero] at hcount
    exact Option.some.inj hcount
  refine ⟨_, Nat.succ_pos _, hlength, hfound, fun fewer hpos hfewer => hnone fewer ?_⟩
  have hmem := hget (fewer - 1) (by omega)
  rw [List.getElem?_append_left (by omega), Nat.sub_add_cancel hpos] at hmem
  exact List.mem_of_getElem? hmem

/-- The search ends at seventeen digits, if not before. -/
lemma isSome_digits? (hm : f.Represented m e) (hbits : f.fractionBits ≤ 52)
    (hgrid : grid = Int.log 10 ((m : ℚ) * 2 ^ e) - 16) :
    ((ofFinite f m e).digits? grid).isSome = true := by
  have hpower : (0 : ℚ) < 10 ^ grid := by positivity
  obtain ⟨hlow, hhigh⟩ := cast_div_bounds ((ofFinite f m e).rescale grid).value
    ((ofFinite f m e).rescale grid).denominator
  rw [rescale_ratio, ofFinite_ratio] at hlow hhigh
  rw [le_div_iff₀ hpower] at hlow
  rw [div_lt_iff₀ hpower] at hhigh
  rw [digits?, Option.isSome_map]
  refine isSome_nearest? ?_
  rw [contains_rescale_iff hm.pos, contains_rescale_iff hm.pos]
  exact exists_near_grid hm hbits (reached_le hm hgrid) hlow hhigh

/-- **The search finds a decimal near the magnitude**, whose last digit stands at most sixteen places
behind the first digit of the magnitude. -/
theorem shortest?_spec (hm : f.Represented m e) (hbits : f.fractionBits ≤ 52) :
    ∃ coefficient power, (ofFinite f m e).shortest? = some (coefficient, power) ∧
      f.Near m e (coefficient * 10 ^ power) ∧ Int.log 10 ((m : ℚ) * 2 ^ e) - 16 ≤ power := by
  have horder := order_ofFinite (f := f) (e := e) hm.pos
  have hfound : (ofFinite f m e).shortest?.isSome = true := by
    rw [shortest?, List.findSome?_isSome_iff]
    refine ⟨17, by decide, isSome_digits? hm hbits ?_⟩
    omega
  obtain ⟨⟨coefficient, power⟩, hsome⟩ := Option.isSome_iff_exists.1 hfound
  refine ⟨coefficient, power, hsome, ?_⟩
  obtain ⟨count, -, hmost, hdigits, -⟩ := exists_of_shortest? hsome
  obtain ⟨-, hpower⟩ := digits?_eq_some_iff.1 hdigits
  have hbound : maxDigits = 17 := rfl
  refine ⟨(contains_rescale_iff hm.pos).1 (contains_of_digits? hdigits), ?_⟩
  omega

end Interval

end QuadBase.Value
