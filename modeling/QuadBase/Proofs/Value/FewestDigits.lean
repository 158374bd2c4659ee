import QuadBase.Proofs.Value.FloatLabels

/-!
# The shortest text

`BinaryFormat.text` is found by a search.  Here it is described without one: of the decimals that
round to a magnitude, the text has the one with the fewest digits, of several such the nearest, and
of two that are as near the greater (`IsShortest`).  There is one text like that and no other, and it
is the one that the search finds (`isText_iff`).

The search looks at one grid of decimals after the other, the coarsest first, and at two points of
each.  Both can be done because what rounds to a magnitude has no gaps (`Near.convex`): if any point
of a grid does, one of the two neighbours of the magnitude does, and no decimal with as few digits
that lies on a finer grid can be nearer (`exists_on_grid`).
-/

namespace QuadBase.Value.BinaryFormat

variable {f : BinaryFormat} {m n word count : Nat} {e grid : Int} {x y q : ℚ}

/-! ## What rounds to a magnitude has no gaps -/

lemma Near.convex (hx : f.Near m e x) (hy : f.Near m e y) (hlow : x ≤ q) (hhigh : q ≤ y) :
    f.Near m e q := by
  have hpower : (0 : ℚ) < 2 ^ e := by positivity
  have hlow' : x / 2 ^ e ≤ q / 2 ^ e := by gcongr
  have hhigh' : q / 2 ^ e ≤ y / 2 ^ e := by gcongr
  rw [Near] at hx hy ⊢
  split at hx
  next heven =>
    rw [if_pos heven] at hy ⊢
    exact ⟨hx.1.trans hlow', hhigh'.trans hy.2⟩
  next hodd =>
    rw [if_neg hodd] at hy ⊢
    exact ⟨hx.1.trans_le hlow', hhigh'.trans_lt hy.2⟩

lemma near_self (f : BinaryFormat) (m : Nat) (e : Int) : f.Near m e (m * 2 ^ e) := by
  have hreach : (0 : ℚ) < f.reachBelow m e := by
    rw [reachBelow]
    split <;> norm_num
  exact Interval.near_of_lt (by linarith) (by linarith)

/-! ## The specification -/

/-- The number can be written with this many digits and a power of ten. -/
def HasDigits (count : Nat) (q : ℚ) : Prop :=
  ∃ (n : Nat) (power : Int), n < 10 ^ count ∧ q = n * 10 ^ power

/-- The first number is the better one to write for `v`: it is nearer, or greater and as near. -/
def Closer (v q x : ℚ) : Prop :=
  |q - v| < |x - v| ∨ |q - v| = |x - v| ∧ x ≤ q

/-- The decimal to write for a magnitude.  It rounds to the magnitude with the fewest digits, and
none with as few digits is closer. -/
structure IsShortest (f : BinaryFormat) (m : Nat) (e : Int) (count : Nat) (q : ℚ) : Prop where
  near : f.Near m e q
  hasDigits : HasDigits count q
  fewest : ∀ x other, f.Near m e x → HasDigits other x → count ≤ other
  closest : ∀ x, f.Near m e x → HasDigits count x → Closer (m * 2 ^ e) q x

lemma Closer.antisymm {v : ℚ} (h : Closer v x y) (h' : Closer v y x) : x = y := by
  rcases h with hlt | ⟨heq, hle⟩
  · rcases h' with hlt' | ⟨heq', -⟩
    · exact absurd hlt' hlt.asymm
    · exact absurd heq' hlt.ne'
  · rcases h' with hlt' | ⟨-, hle'⟩
    · exact absurd heq hlt'.ne'
    · exact le_antisymm hle' hle

/-- What is between a number and `v` is closer than the number. -/
lemma Closer.of_between {v : ℚ} (h : Closer v q y) (hy : y = x ∨ x < y ∧ y ≤ v) : Closer v q x := by
  rcases hy with rfl | ⟨hlow, hhigh⟩
  · exact h
  · have hnearer : |y - v| < |x - v| := by
      rw [abs_of_nonpos (by linarith), abs_of_nonpos (by linarith)]
      linarith
    rcases h with hlt | ⟨heq, -⟩
    · exact Or.inl (hlt.trans hnearer)
    · exact Or.inl (heq ▸ hnearer)

/-- **There is one shortest decimal.** -/
theorem IsShortest.unique {other : Nat} (h : f.IsShortest m e count x)
    (h' : f.IsShortest m e other y) : x = y := by
  obtain rfl : count = other :=
    le_antisymm (h.fewest y other h'.near h'.hasDigits) (h'.fewest x count h.near h.hasDigits)
  exact (h.closest y h'.near h'.hasDigits).antisymm (h'.closest x h.near h.hasDigits)

/-! ## One grid -/

lemma closer_mul_iff {v scale : ℚ} (h : 0 < scale) :
    Closer v (x * scale) (y * scale) ↔ Closer (v / scale) x y := by
  have hdistance (z : ℚ) : |z * scale - v| = |z - v / scale| * scale := by
    rw [← abs_of_pos h, ← abs_mul, abs_of_pos h, sub_mul, div_mul_cancel₀ _ h.ne']
  rw [Closer, hdistance, hdistance, mul_lt_mul_iff_left₀ h, mul_left_inj' h.ne',
    mul_le_mul_iff_left₀ h, Closer]

section Neighbours

variable {t : ℚ} {below k : Nat}

/-- Of all that is not above, the lower neighbour is the closest. -/
lemma closer_below (hlow : (below : ℚ) ≤ t) (hk : k ≤ below) : Closer t below k := by
  have hle : (k : ℚ) ≤ below := by exact_mod_cast hk
  rw [Closer, abs_of_nonpos (by linarith), abs_of_nonpos (by linarith)]
  rcases hle.lt_or_eq with hlt | heq
  · exact Or.inl (by linarith)
  · exact Or.inr ⟨by rw [heq], hle⟩

/-- Of all that is above, the upper neighbour is the closest. -/
lemma closer_above (hhigh : t < below + 1) (hk : below + 1 ≤ k) : Closer t (below + 1 : Nat) k := by
  have hle : ((below + 1 : Nat) : ℚ) ≤ k := by exact_mod_cast hk
  have hhigh' : t < (below + 1 : Nat) := by exact_mod_cast hhigh
  rw [Closer, abs_of_nonneg (by linarith), abs_of_nonneg (by linarith)]
  rcases hle.lt_or_eq with hlt | heq
  · exact Or.inl (by linarith)
  · exact Or.inr ⟨by rw [heq], heq.ge⟩

/-- From half way on, the upper neighbour is as close as what is not above. -/
lemma closer_above_of_half (hhigh : t < below + 1) (hhalf : 1 / 2 ≤ t - below) (hk : k ≤ below) :
    Closer t (below + 1 : Nat) k := by
  have hle : (k : ℚ) ≤ below := by exact_mod_cast hk
  rw [Closer, Nat.cast_add_one, abs_of_nonneg (by linarith), abs_of_nonpos (by linarith)]
  rcases lt_or_ge (below + 1 - t) (-(k - t)) with hlt | hge
  · exact Or.inl hlt
  · exact Or.inr ⟨by linarith, by linarith⟩

lemma closer_below_of_half (hlow : (below : ℚ) ≤ t) (hhalf : t - below < 1 / 2)
    (hk : below + 1 ≤ k) : Closer t below k := by
  have hle : (below : ℚ) + 1 ≤ k := by exact_mod_cast hk
  rw [Closer, abs_of_nonpos (by linarith), abs_of_nonneg (by linarith)]
  exact Or.inl (by linarith)

end Neighbours

section Grid

variable {i : Interval}

/-- The magnitude between its neighbours on a grid.  Twice the rest is compared with the denominator
to see which is nearer. -/
lemma neighbours (hi : i = (Interval.ofFinite f m e).rescale grid) :
    ((i.value / i.denominator : Nat) : ℚ) ≤ m * 2 ^ e / 10 ^ grid ∧
      m * 2 ^ e / 10 ^ grid < ((i.value / i.denominator : Nat) : ℚ) + 1 ∧
      (i.denominator ≤ 2 * (i.value % i.denominator) ↔
        1 / 2 ≤ (m : ℚ) * 2 ^ e / 10 ^ grid - (i.value / i.denominator : Nat)) := by
  have hratio : (i.value : ℚ) / i.denominator = m * 2 ^ e / 10 ^ grid := by
    rw [hi, Interval.rescale_ratio, Interval.ofFinite_ratio]
  have hpos : 0 < i.denominator := by
    rw [hi]
    exact Nat.mul_pos (Nat.mul_pos (by decide) (Nat.pow_pos (by decide))) (Nat.pow_pos (by decide))
  have hdenominator : (0 : ℚ) < i.denominator := by exact_mod_cast hpos
  have hdivision : (i.value : ℚ) = i.denominator * (i.value / i.denominator : Nat) +
      (i.value % i.denominator : Nat) := by
    exact_mod_cast (Nat.div_add_mod i.value i.denominator).symm
  obtain ⟨hlow, hhigh⟩ := Interval.cast_div_bounds i.value i.denominator
  rw [← hratio]
  refine ⟨hlow, hhigh, ?_⟩
  rw [le_sub_iff_add_le, le_div_iff₀ hdenominator, ← Nat.cast_le (α := ℚ), Nat.cast_mul,
    Nat.cast_ofNat]
  constructor <;> intro h <;> linarith

variable (hm : 0 < m)
include hm

/-- A point of the grid that is not above the magnitude puts the lower neighbour into the interval. -/
lemma contains_below {k : Nat} (hi : i = (Interval.ofFinite f m e).rescale grid)
    (hk : f.Near m e (k * 10 ^ grid)) (hle : k ≤ i.value / i.denominator) :
    i.contains (i.value / i.denominator) = true := by
  have hpower : (0 : ℚ) < 10 ^ grid := by positivity
  obtain ⟨hlow, -, -⟩ := neighbours hi
  have hle' : (k : ℚ) ≤ (i.value / i.denominator : Nat) := by exact_mod_cast hle
  rw [le_div_iff₀ hpower] at hlow
  subst hi
  rw [Interval.contains_rescale_iff hm]
  exact hk.convex (near_self f m e) (by gcongr) hlow

lemma contains_above {k : Nat} (hi : i = (Interval.ofFinite f m e).rescale grid)
    (hk : f.Near m e (k * 10 ^ grid)) (hle : i.value / i.denominator + 1 ≤ k) :
    i.contains (i.value / i.denominator + 1) = true := by
  have hpower : (0 : ℚ) < 10 ^ grid := by positivity
  obtain ⟨-, hhigh, -⟩ := neighbours hi
  have hle' : ((i.value / i.denominator + 1 : Nat) : ℚ) ≤ k := by exact_mod_cast hle
  rw [div_lt_iff₀ hpower] at hhigh
  subst hi
  rw [Interval.contains_rescale_iff hm]
  refine (near_self f m e).convex hk ?_ (by gcongr)
  rw [Nat.cast_add_one]
  exact hhigh.le

/-- **If a grid has a point that rounds to the magnitude, the search stops at this grid.** -/
theorem isSome_digits?_of_near {k : Nat} (hk : f.Near m e (k * 10 ^ grid)) :
    ((Interval.ofFinite f m e).digits? grid).isSome = true := by
  rw [Interval.digits?, Option.isSome_map]
  refine Interval.isSome_nearest? ?_
  rcases Nat.lt_or_ge k (((Interval.ofFinite f m e).rescale grid).value /
    ((Interval.ofFinite f m e).rescale grid).denominator + 1) with hlt | hge
  · exact Or.inl (contains_below hm rfl hk (Nat.le_of_lt_succ hlt))
  · exact Or.inr (contains_above hm rfl hk hge)

/-- **The closest point of a grid is found.** -/
theorem closer_of_digits? {power : Int} {k : Nat}
    (h : (Interval.ofFinite f m e).digits? grid = some (n, power))
    (hk : f.Near m e (k * 10 ^ grid)) : Closer (m * 2 ^ e) (n * 10 ^ grid) (k * 10 ^ grid) := by
  have hpower : (0 : ℚ) < 10 ^ grid := by positivity
  obtain ⟨hfound, -⟩ := Interval.digits?_eq_some_iff.1 h
  generalize hi : (Interval.ofFinite f m e).rescale grid = i at hfound
  obtain ⟨hlow, hhigh, hhalf⟩ := neighbours hi.symm
  have hbelow := contains_below hm hi.symm hk
  have habove := contains_above hm hi.symm hk
  rw [closer_mul_iff hpower]
  simp only [Interval.nearest?] at hfound
  generalize i.value / i.denominator = below at *
  split at hfound
  next hup =>
    obtain rfl := Option.some.inj hfound
    rcases Nat.lt_or_ge k (below + 1) with hlt | hge
    · -- the lower neighbour is in the interval as well, so it was not nearer
      rw [hbelow (Nat.le_of_lt_succ hlt), Bool.not_true, Bool.false_or, Bool.and_eq_true,
        decide_eq_true_eq, hhalf] at hup
      exact closer_above_of_half hhigh hup.2 (Nat.le_of_lt_succ hlt)
    · exact closer_above hhigh hge
  next hup =>
    split at hfound
    next hdown =>
      obtain rfl := Option.some.inj hfound
      rcases Nat.lt_or_ge k (below + 1) with hlt | hge
      · exact closer_below hlow (Nat.le_of_lt_succ hlt)
      · rw [habove hge, hdown, Bool.not_true, Bool.false_or, Bool.true_and, decide_eq_true_eq,
          hhalf, not_le] at hup
        exact closer_below_of_half hlow hup hge
    next => cases hfound

end Grid

/-! ## All grids -/

/-- A point of a grid that is found has no more digits than the grid is for. -/
lemma hasDigits_of_digits? {power : Int} (hcount : 0 < count)
    (hgrid : grid = Int.log 10 ((m : ℚ) * 2 ^ e) + 1 - count)
    (h : (Interval.ofFinite f m e).digits? grid = some (n, power)) :
    HasDigits count (n * 10 ^ grid) := by
  have hpower : (0 : ℚ) < 10 ^ grid := by positivity
  obtain ⟨hfound, -⟩ := Interval.digits?_eq_some_iff.1 h
  generalize hi : (Interval.ofFinite f m e).rescale grid = i at hfound
  obtain ⟨hlow, -, -⟩ := neighbours hi.symm
  have hbelow : i.value / i.denominator < 10 ^ count := by
    have hlt := Int.lt_zpow_succ_log_self (b := 10) (by decide) ((m : ℚ) * 2 ^ e)
    rw [show Int.log 10 ((m : ℚ) * 2 ^ e) + 1 = (count : Int) + grid by omega, Nat.cast_ofNat,
      zpow_add₀ (by decide), zpow_natCast, ← div_lt_iff₀ hpower] at hlt
    exact_mod_cast hlow.trans_lt hlt
  have hle : n ≤ i.value / i.denominator + 1 := by
    simp only [Interval.nearest?] at hfound
    split at hfound
    next => exact (Option.some.inj hfound).ge
    next =>
      split at hfound
      next => exact Nat.le_succ_of_le (Option.some.inj hfound).ge
      next => cases hfound
  rcases Nat.lt_or_ge n (10 ^ count) with hlt | hge
  · exact ⟨n, grid, hlt, rfl⟩
  · -- rounded up to the next power of ten, which has one digit
    obtain rfl : n = 10 ^ count := by omega
    refine ⟨1, count + grid, Nat.one_lt_pow hcount.ne' (by decide), ?_⟩
    rw [zpow_add₀ (by decide), zpow_natCast]
    push_cast
    ring

/-- Points of a coarser grid are points of the finer one. -/
lemma exists_mul_zpow_eq {power : Int} (n : Nat) (h : grid ≤ power) :
    ∃ k : Nat, (k : ℚ) * 10 ^ grid = n * 10 ^ power := by
  obtain ⟨more, hmore⟩ := Int.eq_ofNat_of_zero_le (Int.sub_nonneg_of_le h)
  obtain rfl : power = more + grid := by omega
  refine ⟨n * 10 ^ more, ?_⟩
  rw [zpow_add₀ (by decide), zpow_natCast]
  push_cast
  ring

/-- With as many digits, points of a finer grid stay below the powers of ten of a coarser one. -/
lemma mul_zpow_lt {power : Int} {k : Nat} (hn : n < 10 ^ (k + 1)) (h : power < grid) :
    (n : ℚ) * 10 ^ power < (10 ^ k : Nat) * 10 ^ grid := by
  have hn' : (n : ℚ) < 10 ^ (k + 1) := by exact_mod_cast hn
  calc (n : ℚ) * 10 ^ power < 10 ^ (k + 1) * 10 ^ power := by gcongr
    _ = 10 ^ k * 10 ^ (power + 1) := by
      rw [zpow_add_one₀ (by decide), pow_succ]
      ring
    _ ≤ 10 ^ k * 10 ^ grid := by
      gcongr
      · norm_num
      · omega
    _ = (10 ^ k : Nat) * 10 ^ grid := by push_cast; rfl

section Search

variable (hm : f.Represented m e)
include hm

/-- Without digits there is only zero, which does not round to a magnitude. -/
lemma HasDigits.pos (h : HasDigits count x) (hx : f.Near m e x) : 0 < count := by
  obtain ⟨n, power, hn, rfl⟩ := h
  have hpositive : 0 < n := hx.coefficient_pos hm
  rcases Nat.eq_zero_or_pos count with rfl | hcount
  · omega
  · exact hcount

/-- **A decimal with few digits is not closer than the grid for as many digits.**  If it lies on a
finer grid, it stays below the power of ten that the magnitude has reached, and this power is on the
grid. -/
theorem exists_on_grid (hx : f.Near m e x) (hdigits : HasDigits count x)
    (hgrid : grid = Int.log 10 ((m : ℚ) * 2 ^ e) + 1 - count) :
    ∃ k : Nat, f.Near m e (k * 10 ^ grid) ∧
      ((k : ℚ) * 10 ^ grid = x ∨ x < k * 10 ^ grid ∧ (k : ℚ) * 10 ^ grid ≤ m * 2 ^ e) := by
  obtain ⟨k, rfl⟩ := Nat.exists_eq_succ_of_ne_zero (hdigits.pos hm hx).ne'
  obtain ⟨n, power, hn, rfl⟩ := hdigits
  rcases lt_or_ge power grid with hfine | hcoarse
  · have hless := mul_zpow_lt hn hfine
    have hreached : ((10 ^ k : Nat) : ℚ) * 10 ^ grid ≤ m * 2 ^ e := by
      rw [Nat.cast_pow, Nat.cast_ofNat, mul_comm]
      exact Interval.reached_le hm (by omega)
    exact ⟨10 ^ k, hx.convex (near_self f m e) hless.le hreached, Or.inr ⟨hless, hreached⟩⟩
  · obtain ⟨k, hsame⟩ := exists_mul_zpow_eq n hcoarse
    exact ⟨k, hsame ▸ hx, Or.inl hsame⟩

/-- **The search finds the shortest decimal.** -/
theorem isShortest_of_shortest? {power : Int}
    (h : (Interval.ofFinite f m e).shortest? = some (n, power)) :
    ∃ count, f.IsShortest m e count (n * 10 ^ power) := by
  obtain ⟨count, hcount, -, hfound, hnone⟩ := Interval.exists_of_shortest? h
  rw [Interval.order_ofFinite hm.pos] at hfound hnone
  obtain ⟨-, rfl⟩ := Interval.digits?_eq_some_iff.1 hfound
  refine ⟨count, (Interval.contains_rescale_iff hm.pos).1 (Interval.contains_of_digits? hfound),
    hasDigits_of_digits? hcount rfl hfound, fun x other hx hother => ?_, fun x hx hdigits => ?_⟩
  · -- a grid for fewer digits would have stopped the search
    refine Nat.not_lt.1 fun hlt => ?_
    obtain ⟨k, hk, -⟩ := exists_on_grid hm hx hother rfl
    have hsome := isSome_digits?_of_near hm.pos hk
    rw [hnone other (hother.pos hm hx) hlt] at hsome
    cases hsome
  · obtain ⟨k, hk, hplace⟩ := exists_on_grid hm hx hdigits rfl
    exact (closer_of_digits? hm.pos hfound hk).of_between hplace

end Search

/-! ## The text -/

/-- The texts of a magnitude with a sign, by what they are for.  There is no exponent in them, zero
keeps its sign, and not-a-number has none. -/
inductive IsText (f : BinaryFormat) (negative : Bool) : Magnitude → List Char → Prop
  | zero (e : Int) : IsText f negative (.finite 0 e) (signed negative ['0'])
  | finite {m : Nat} {e : Int} {count : Nat} {d : Positional} (hpos : 0 < m) (hlowest : d.IsLowest)
      (hshortest : f.IsShortest m e count (d.coefficient * 10 ^ (-d.places : Int))) :
      IsText f negative (.finite m e) (signed negative d.text)
  | infinite : IsText f negative .infinite (signed negative "INF".toList)
  | notANumber : IsText f negative .notANumber "NaN".toList

/-- The text that is written is one. -/
lemma isText_text (hf : f.Fits64) (word : Nat) :
    f.IsText (f.isNegative word) (f.magnitude word) (f.text word) := by
  have hreading := reading_magnitude hf word
  generalize hmagnitude : f.magnitude word = magnitude at *
  cases hreading with
  | zero e hzero =>
    rw [text_zero hmagnitude]
    exact .zero e
  | finite hm he hwordOf hlt =>
    obtain ⟨coefficient, power, hfound, -⟩ := Interval.shortest?_spec hm hf.fraction_le
    obtain ⟨count, hshortest⟩ := isShortest_of_shortest? hm hfound
    rw [← ofScaled_ratio] at hshortest
    rw [text_of_shortest? hm.pos hmagnitude hfound]
    exact .finite hm.pos (ofScaled_isLowest _ _) hshortest
  | infinite hinfinite =>
    rw [text_infinite hmagnitude]
    exact .infinite
  | notANumber =>
    rw [text_notANumber hmagnitude]
    exact .notANumber

/-- A decimal in lowest form is determined by its value. -/
lemma eq_of_isLowest {d d' : Positional} (h : d.IsLowest) (h' : d'.IsLowest)
    (hvalue : (d.coefficient : ℚ) * 10 ^ (-d.places : Int) =
      d'.coefficient * 10 ^ (-d'.places : Int)) : d = d' := by
  wlog hle : d.places ≤ d'.places generalizing d d'
  · exact (this h' h hvalue.symm (Nat.le_of_not_le hle)).symm
  obtain ⟨coefficient, places⟩ := d
  obtain ⟨coefficient', places'⟩ := d'
  obtain ⟨more, rfl⟩ := Nat.exists_eq_add_of_le hle
  have hmore : coefficient' = coefficient * 10 ^ more := by
    have hpower : (0 : ℚ) < 10 ^ (-places : Int) := by positivity
    have hpower' : (0 : ℚ) < 10 ^ more := by positivity
    have hsplit : -((places + more : Nat) : Int) = -(places : Int) + -(more : Int) := by
      push_cast
      ring
    dsimp only at hvalue
    rw [hsplit, zpow_add₀ (by decide), mul_left_comm, mul_comm (coefficient : ℚ),
      mul_right_inj' hpower.ne', zpow_neg, zpow_natCast, eq_mul_inv_iff_mul_eq₀ hpower'.ne'] at hvalue
    exact_mod_cast hvalue.symm
  rcases Nat.eq_zero_or_pos more with rfl | hpos
  · rw [hmore, Nat.pow_zero, Nat.mul_one, Nat.add_zero]
  · -- then the last digit of the second is a zero behind the point
    obtain ⟨k, rfl⟩ := Nat.exists_eq_succ_of_ne_zero hpos.ne'
    rcases h' with hzero | hdigit
    · exact absurd hzero (Nat.succ_ne_zero _)
    · rw [Nat.pow_succ, ← Nat.mul_assoc] at hmore
      exact absurd (hmore ▸ Nat.mul_mod_left _ _) hdigit

lemma IsText.unique {negative : Bool} {magnitude : Magnitude} {label other : List Char}
    (h : f.IsText negative magnitude label) (h' : f.IsText negative magnitude other) :
    label = other := by
  cases h with
  | zero e =>
    cases h' with
    | zero => rfl
    | finite hpos => exact absurd hpos (lt_irrefl 0)
  | finite hpos hlowest hshortest =>
    cases h' with
    | zero => exact absurd hpos (lt_irrefl 0)
    | finite _ hlowest' hshortest' =>
      rw [eq_of_isLowest hlowest hlowest' (hshortest.unique hshortest')]
  | infinite =>
    cases h' with
    | infinite => rfl
  | notANumber =>
    cases h' with
    | notANumber => rfl

/-- **The shortest text is what is written, and no other text is the shortest.** -/
theorem isText_iff (hf : f.Fits64) {label : List Char} :
    f.IsText (f.isNegative word) (f.magnitude word) label ↔ label = f.text word := by
  constructor
  · exact fun h => h.unique (isText_text hf word)
  · rintro rfl
    exact isText_text hf word

end QuadBase.Value.BinaryFormat
