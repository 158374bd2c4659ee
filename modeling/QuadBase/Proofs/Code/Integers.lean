import QuadBase.Proofs.Code.Canonical
import QuadBase.Proofs.Value.Spelling

/-!
# Packed integers

A label is packed as an integer exactly if it is the canonical numeral of an integer with 24 bits,
and the payload is this integer, counted from the least one.  No payload is left over.
-/

namespace QuadBase.Code.Family

open QuadBase.Value

variable {payload : Nat} {label : String}

/-- What is unpacked is the canonical numeral. -/
lemma unpack?_integer_eq_some_iff :
    integer.unpack? payload = some label.toList ↔
      Integer.IsCanonical label.toList ((payload : Int) - integerBias) := by
  rw [Integer.isCanonical_iff, unpack?, Option.some.injEq, eq_comm]

/-- A label is packed exactly if it is unpacked from a payload, and then into this one. -/
lemma pack?_integer_eq_some_iff :
    integer.pack? label = some payload ↔
      payload < payloadBound ∧ Integer.IsCanonical label.toList ((payload : Int) - integerBias) := by
  rw [pack?_eq_some_iff_canonical, unpack?_integer_eq_some_iff]
  exact and_congr_right fun _ => and_iff_right trivial

/-- **Integers of 24 bits are packed by their canonical numerals, and no other label is.**  The
payload is the integer counted from the least one, packing and unpacking undo each other, and every
payload has a label. -/
theorem integer_labels (label : String) (payload : Fin payloadBound) :
    (∀ p, integer.pack? label = some p ↔
      ∃ value : Int, Integer.IsCanonical label.toList value ∧
        -(2 : Int) ^ 23 ≤ value ∧ value < 2 ^ 23 ∧ (p : Int) = value + 2 ^ 23) ∧
    (∀ p, integer.pack? label = some p →
      p < 2 ^ 24 ∧ integer.unpack? p = some label.toList) ∧
    ∃ numeral : String, integer.unpack? payload = some numeral.toList ∧
      Integer.IsCanonical numeral.toList ((payload : Int) - 2 ^ 23) ∧
      integer.pack? numeral = some (payload : Nat) := by
  have hbound : payloadBound = 2 ^ 24 := rfl
  have hbias : integerBias = 2 ^ 23 := rfl
  refine ⟨fun p => ?_, fun p h => ⟨(pack?_integer_eq_some_iff.1 h).1, unpack?_of_pack? h⟩, ?_⟩
  · rw [pack?_integer_eq_some_iff]
    constructor
    · rintro ⟨hlt, hcanonical⟩
      exact ⟨_, hcanonical, by omega, by omega, by omega⟩
    · rintro ⟨value, hcanonical, hleast, hgreatest, hp⟩
      obtain rfl : value = (p : Int) - integerBias := by omega
      exact ⟨by omega, hcanonical⟩
  · have hlabel : integer.unpack? payload =
        some (String.ofList (Integer.text ((payload : Int) - integerBias))).toList := by
      rw [String.toList_ofList]
      rfl
    exact ⟨_, hlabel, unpack?_integer_eq_some_iff.1 hlabel,
      pack?_integer_eq_some_iff.2 ⟨payload.isLt, unpack?_integer_eq_some_iff.1 hlabel⟩⟩

end QuadBase.Code.Family
