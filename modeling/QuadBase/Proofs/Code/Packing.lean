import QuadBase.Code.Basic
import QuadBase.Code.Packing
import QuadBase.Proofs.Value.BinaryFloat

/-!
# Payloads fit into a code

Every layout keeps its payloads below the bound of 24 bits (`Family.payload?_lt`), so a payload that
is put into a code comes out of it again.  The number of a datatype does, too, as there are fewer
datatypes than numbers (`packedDatatype?_of_packedNumber?`).
-/

namespace QuadBase.Code

open QuadBase.Value

namespace Family

variable {payload : Nat}

lemma integerPayload?_lt {value : Int} (h : integerPayload? value = some payload) :
    payload < payloadBound := by
  rw [integerPayload?] at h
  split at h
  next hrange =>
    obtain rfl := Option.some.inj h
    omega
  next => cases h

lemma decimalPayload?_lt {value : Decimal} (h : decimalPayload? value = some payload) :
    payload < payloadBound := by
  rw [decimalPayload?] at h
  obtain ⟨coefficient, places⟩ := value.magnitude
  dsimp only at h
  split at h
  next hrange =>
    rw [← Option.some.inj h]
    simp only [maxPlaces, placesBias, decimalBias, decimalFactor, payloadBound, Nat.pow_eq] at *
    split <;> omega
  next => cases h

lemma doublePayload?_lt {word : Nat} (hword : word < 2 * binary64.signBit)
    (h : doublePayload? word = some payload) : payload < payloadBound := by
  have hbits : 2 * binary64.signBit = 2 ^ 64 := by decide
  rw [doublePayload?] at h
  split at h
  next =>
    rw [← Option.some.inj h]
    simp only [doubleFactor, payloadBound, Nat.pow_eq] at *
    omega
  next => cases h

lemma calendarPayload?_lt {fields : CalendarFields} (h : calendarPayload? fields = some payload) :
    payload < payloadBound := by
  rw [calendarPayload?] at h
  split at h
  next => cases h
  next hrange =>
    split at h
    next =>
      rw [← Option.some.inj h]
      simp only [payloadBound, Nat.pow_eq]
      omega
    next year _ =>
      split at h
      next hyear =>
        rw [← Option.some.inj h]
        simp only [payloadBound, yearBias, Nat.pow_eq] at *
        omega
      next => cases h

/-- **Every payload fits.** -/
theorem payload?_lt {family : Family} {label : List Char}
    (h : family.payload? label = some payload) : payload < payloadBound := by
  cases family with
  | decimal =>
    obtain ⟨value, -, hvalue⟩ := Option.bind_eq_some_iff.1 h
    exact decimalPayload?_lt hvalue
  | integer =>
    obtain ⟨value, -, hvalue⟩ := Option.bind_eq_some_iff.1 h
    exact integerPayload?_lt hvalue
  | double =>
    obtain ⟨word, hread, hword⟩ := Option.bind_eq_some_iff.1 h
    exact doublePayload?_lt (BinaryFormat.read?_lt (by decide) hread) hword
  | float =>
    obtain ⟨word, -, hword⟩ := Option.bind_eq_some_iff.1 h
    exact doublePayload?_lt (BinaryFormat.convert_lt (by decide) binary32 word) hword
  | boolean =>
    rw [payload?] at h
    split at h
    · rw [← Option.some.inj h]
      decide
    · split at h
      · rw [← Option.some.inj h]
        decide
      · cases h
  | calendar shape =>
    obtain ⟨⟨fields, zone⟩, -, hfields⟩ := Option.bind_eq_some_iff.1 h
    cases zone with
    | none => exact calendarPayload?_lt hfields
    | some zone => cases hfields
  | timeOfDay => cases h

end Family

/-! ## Datatypes and their numbers -/

/-- The number of a datatype leads back to it. -/
theorem packedDatatype?_of_packedNumber? {iri : Rdf.Iri} {number : Nat} {family : Family}
    (h : packedNumber? iri = some (number, family)) :
    0 < number ∧ number < numberSpace ∧
      ∃ datatype, packedDatatype? number = some datatype ∧ datatype.iri = iri ∧
        datatype.family = family := by
  obtain ⟨entry, hfind, hentry⟩ := Option.map_eq_some_iff.1 h
  have hiri := List.find?_some hfind
  obtain ⟨⟨datatype, found⟩, hmem, rfl⟩ := List.mem_map.1 (List.mem_of_find?_eq_some hfind)
  obtain ⟨rfl, rfl⟩ := Prod.mk.inj hentry
  obtain ⟨hle, hget⟩ := List.mem_zipIdx_iff_le_and_getElem?_sub.1 hmem
  have hlength : packedDatatypes.length = 25 := rfl
  have hlt := (List.getElem?_eq_some_iff.1 hget).1
  refine ⟨hle, ?_, datatype, ?_, by simpa using hiri, rfl⟩
  · simp only [numberSpace, Nat.pow_eq]
    omega
  · rw [packedDatatype?, if_neg (by omega), hget]

end QuadBase.Code
