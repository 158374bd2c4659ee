import Mathlib.Tactic.Common
import QuadBase.Value.BinaryFloat

/-!
# The size of a floating-point word

A word of a binary format has a sign bit, and every magnitude fits below it.  So reading a label and
converting from another format give words of the format (`read?_lt`, `convert_lt`).
-/

namespace QuadBase.Value.BinaryFormat

variable {f g : BinaryFormat}

lemma signBit_eq (f : BinaryFormat) :
    f.signBit = Nat.pow 2 f.exponentBits * Nat.pow 2 f.fractionBits :=
  Nat.pow_add 2 f.exponentBits f.fractionBits

lemma infinity_eq (f : BinaryFormat) : f.infinity = f.signBit - Nat.pow 2 f.fractionBits := by
  rw [infinity, signBit_eq, Nat.sub_mul, Nat.one_mul]

lemma fraction_le_signBit (f : BinaryFormat) : Nat.pow 2 f.fractionBits ≤ f.signBit := by
  rw [signBit_eq]
  exact Nat.le_mul_of_pos_left _ (Nat.two_pow_pos _)

lemma infinity_lt (f : BinaryFormat) : f.infinity < f.signBit := by
  have hpos : 0 < Nat.pow 2 f.fractionBits := Nat.two_pow_pos _
  have hle := fraction_le_signBit f
  rw [infinity_eq]
  omega

/-- The bit that makes infinity a not-a-number lies in the fraction. -/
lemma quietNaN_lt (h : 0 < f.fractionBits) : f.quietNaN < f.signBit := by
  have hle := fraction_le_signBit f
  have hhalf : Nat.pow 2 (f.fractionBits - 1) < Nat.pow 2 f.fractionBits :=
    Nat.pow_lt_pow_right (by decide) (by omega)
  rw [quietNaN, infinity_eq]
  omega

lemma round_le (f : BinaryFormat) (numerator denominator : Nat) :
    f.round numerator denominator ≤ f.infinity := by
  rw [round]
  split
  · exact Nat.zero_le _
  · split
    · exact Nat.le_refl _
    · exact Nat.min_le_left _ _

lemma roundDecimal_le (f : BinaryFormat) (coefficient : Nat) (exponent : Int) :
    f.roundDecimal coefficient exponent ≤ f.infinity := by
  rw [roundDecimal]
  split
  · exact Nat.zero_le _
  · split
    · exact Nat.le_refl _
    · exact f.round_le _ _

lemma ofMagnitude_lt (h : 0 < f.fractionBits) (m : Magnitude) : f.ofMagnitude m < f.signBit := by
  cases m with
  | finite significand exponent => exact Nat.lt_of_le_of_lt (f.round_le _ _) f.infinity_lt
  | infinite => exact f.infinity_lt
  | notANumber => exact quietNaN_lt h

lemma withSign_lt {negative : Bool} {word : Nat} (h : word < f.signBit) :
    f.withSign negative word < 2 * f.signBit := by
  rw [withSign]
  split <;> omega

theorem convert_lt (h : 0 < f.fractionBits) (g : BinaryFormat) (word : Nat) :
    f.convert g word < 2 * f.signBit :=
  withSign_lt (ofMagnitude_lt h _)

lemma readNumeral?_le {cs : List Char} {word : Nat} (h : f.readNumeral? cs = some word) :
    word ≤ f.infinity := by
  simp only [readNumeral?, bind, Option.bind_eq_some_iff] at h
  obtain ⟨number, -, exponent, -, hword⟩ := h
  rw [← Option.some.inj hword]
  exact f.roundDecimal_le _ _

theorem read?_lt (h : 0 < f.fractionBits) {label : List Char} {word : Nat}
    (hread : f.read? label = some word) : word < 2 * f.signBit := by
  rw [read?] at hread
  generalize readSign label = signed at hread
  obtain ⟨negative, rest⟩ := signed
  obtain ⟨magnitude, hmagnitude, rfl⟩ := Option.map_eq_some_iff.1 hread
  refine withSign_lt ?_
  split at hmagnitude
  · rw [← Option.some.inj hmagnitude]
    exact f.infinity_lt
  · split at hmagnitude
    · rw [← Option.some.inj hmagnitude]
      exact quietNaN_lt h
    · exact Nat.lt_of_le_of_lt (readNumeral?_le hmagnitude) f.infinity_lt

end QuadBase.Value.BinaryFormat
