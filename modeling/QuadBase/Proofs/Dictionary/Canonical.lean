import QuadBase.Proofs.Code.Canonical
import QuadBase.Proofs.Dictionary.Permanence

/-!
# Codes that are issued for what they are decoded to

Embedded codes are decoded without asking who made them.  A code whose payload is not canonical is
decoded like any other, and the term that it gives has another code, or will get one.

* `Code.Canonical` — the payload of an embedded code is the one that its label is packed into.
* `embed?_eq_some_iff_canonical` — packing undoes unpacking for canonical codes and no others.
* `encode_decoded_iff_canonical` — **an embedded code is the code of the term that it is decoded to,
  exactly if it is canonical**, in every dictionary.
-/

namespace QuadBase

namespace Code

variable {code : Code} {number : Nat} {datatype : PackedDatatype}

/-- The payload of an embedded code is the one that its label is packed into. -/
def Canonical (code : Code) : Prop :=
  ∀ datatype ∈ packedDatatype? code.datatypeNumber, datatype.family.Canonical code.payload

/-- An embedded code is put together again from its parts. -/
lemma embedded_datatypeNumber_payload (h : code.isEmbedded = true) :
    embedded code.datatypeNumber code.payload = code := by
  obtain ⟨word⟩ := code
  have hword : word.toNat < 2 ^ 32 := word.toNat_lt
  simp only [isEmbedded, Bool.and_eq_true, decide_eq_true_eq] at h
  rw [Code.mk.injEq, ← UInt32.toNat_inj, toNat_embedded]
  simp only [datatypeNumber, payload, embeddedStart, numberSpace, payloadSpace, Nat.pow_eq] at *
  omega

lemma payload_lt (code : Code) : code.payload < Family.payloadBound :=
  Nat.mod_lt _ (by decide)

/-- The datatype of a number leads back to it: no two packed datatypes have one IRI. -/
theorem packedNumber?_of_packedDatatype? (h : packedDatatype? number = some datatype) :
    packedNumber? datatype.iri = some (number, datatype.family) := by
  have hall : ∀ entry ∈ packedDatatypes.zipIdx 1,
      packedNumber? entry.1.iri = some (entry.2, entry.1.family) := by decide +kernel
  rw [packedDatatype?] at h
  split at h
  next => cases h
  next hne =>
    refine hall (datatype, number) (List.mem_zipIdx_iff_le_and_getElem?_sub.2 ⟨?_, h⟩)
    omega

end Code

namespace Dictionary

open QuadBase.Rdf

variable {t : Term} {code : Code}

/-- **Packing undoes unpacking for canonical codes and no others.** -/
theorem embed?_eq_some_iff_canonical (h : code.isEmbedded = true)
    (hunembed : unembed? code = some t) : embed? t = some code ↔ code.Canonical := by
  obtain ⟨datatype, hdatatype, hliteral⟩ := Option.bind_eq_some_iff.1 hunembed
  obtain ⟨label, hunpack, rfl⟩ := Option.map_eq_some_iff.1 hliteral
  have hplain : (Literal.ofDatatype (String.ofList label) datatype.iri).language? = none := by
    unfold Literal.ofDatatype
    split <;> rfl
  have hcanonical : code.Canonical ↔ datatype.family.Canonical code.payload := by
    rw [Code.Canonical, hdatatype]
    simp
  have hpack := Code.Family.pack?_iff_canonical code.payload_lt hunpack
  rw [embed?, hplain, Option.isSome_none, if_neg Bool.false_ne_true, Literal.ofDatatype_datatype,
    Literal.ofDatatype_label, Code.packedNumber?_of_packedDatatype? hdatatype, Option.bind_some,
    hcanonical, ← hpack, Option.map_eq_some_iff]
  constructor
  · rintro ⟨payload, hpayload, hcode⟩
    have hlt : payload < Code.payloadSpace :=
      Code.Family.payload?_lt (Code.Family.pack?_eq_some_iff.1 hpayload).2.1
    rw [hpayload, ← hcode, Code.payload_embedded _ hlt]
  · exact fun hpayload => ⟨_, hpayload, Code.embedded_datatypeNumber_payload h⟩

namespace TermDictionary

variable [Text.Hasher] {d : TermDictionary}

/-- An embedded code is the answer only for the term that is packed into it. -/
lemma Sound.encode_eq_ok_iff_embed? (hd : d.Sound) (h : code.isEmbedded = true) :
    (d.encode t).answer = .ok code ↔ embed? t = some code := by
  constructor
  · intro hanswer
    rcases (hd.encode t).2 code hanswer with hembed | ⟨-, key, -, hissued⟩
    · exact hembed
    · have hindexed := isEmbedded_eq_false_of_isIndexed (isIndexed_of_issued hissued)
      rw [h] at hindexed
      cases hindexed
  · exact fun hembed => Represents.encode (Or.inl hembed) hd

/-- **An embedded code is the code of the term that it is decoded to, exactly if it is canonical**,
whatever a dictionary has been asked for. -/
theorem encode_decoded_iff_canonical (config : Config) (requests : List Request) {code : Code}
    (h : code.isEmbedded = true) {t : Term}
    (hdecode : (((create config).serveAll requests).decode code).answer = .ok t) :
    (((create config).serveAll requests).encode t).answer = .ok code ↔ code.Canonical := by
  have hd : ((create config).serveAll requests).Sound :=
    ((create_sound config).serveAll requests).sound
  rw [hd.encode_eq_ok_iff_embed? h]
  refine embed?_eq_some_iff_canonical h ?_
  rw [TermDictionary.decode, if_pos h] at hdecode
  cases hunembed : unembed? code with
  | none =>
    rw [hunembed] at hdecode
    cases hdecode
  | some own =>
    rw [hunembed] at hdecode
    exact congrArg some (Except.ok.inj hdecode)

end TermDictionary

/-- A negative decimal of two digits comes back under the same code. -/
theorem TermDictionary.encode_decoded_iff_canonical_negative :
    let d := (create {}).serveAll [.encode (.blank "a"), .fork]
    let t : Term := .literal (.ofDatatype "-1.5" (xsd "decimal"))
    (⟨0xE18BFFF1⟩ : Code).isEmbedded = true ∧ (d.decode ⟨0xE18BFFF1⟩).answer = .ok t ∧
      (d.encode t).answer = .ok ⟨0xE18BFFF1⟩ := by
  intro d t
  have hembedded : (⟨0xE18BFFF1⟩ : Code).isEmbedded = true := by decide
  have hdecode : (d.decode ⟨0xE18BFFF1⟩).answer = .ok t := by decide +kernel
  refine ⟨hembedded, hdecode, ?_⟩
  refine (encode_decoded_iff_canonical {} [.encode (.blank "a"), .fork] hembedded hdecode).2 ?_
  rintro datatype hdatatype
  obtain rfl := Option.some.inj hdatatype
  exact ⟨Or.inr (by decide), by decide⟩

/-- Ten tenths are decoded to the same term as one whole, which has two codes then.  Only the second
one is issued. -/
theorem TermDictionary.decode_tenTenths :
    let d := create {}
    let t : Term := .literal (.ofDatatype "1" (xsd "decimal"))
    (⟨0xE18C000A⟩ : Code).isEmbedded = true ∧ (d.decode ⟨0xE18C000A⟩).answer = .ok t ∧
      (d.encode t).answer ≠ .ok ⟨0xE18C000A⟩ ∧ (d.encode t).answer = .ok ⟨0xE1840001⟩ ∧
      (d.decode ⟨0xE1840001⟩).answer = .ok t := by
  decide +kernel

end Dictionary

end QuadBase
