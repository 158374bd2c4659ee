import QuadBase.Proofs.Dictionary.Foreign

/-!
# The kind of a term, from its code

A code tells whether it stands for a literal, an IRI or a blank node, without the term being put
together.  An embedded code tells by its datatype number and any other code by the header of its
record, whereas decoding goes by the payload, the caches, and the vocabularies.

* `RecordKind.Describes` — a kind is that of a term.
* `Sound.kindOf_of_decode` — a code that is decoded has the kind of its term.
* `Sound.kindOf_eq_unknownCode_iff` — the others are refused, as they are when they are decoded.
* `classification_agrees` — **classification agrees with decoding** on every code, but for embedded
  codes whose payload cannot be unpacked.
-/

namespace QuadBase

namespace Rdf.Term

def isLiteral : Term → Bool
  | .literal _ => true
  | .resource _ => false

def isIri : Term → Bool
  | .resource (.iri _) => true
  | _ => false

def isBlank : Term → Bool
  | .resource (.blank _) => true
  | _ => false

end Rdf.Term

namespace Dictionary

open QuadBase.Rdf

/-- Records of this kind are those of terms like `t`. -/
structure RecordKind.Describes (kind : RecordKind) (t : Term) : Prop where
  literal : kind.isLiteral = t.isLiteral
  iri : kind.isIri = t.isIri
  blank : (some kind == some .blankNode) = t.isBlank

/-- What is packed is a literal of a packed datatype. -/
lemma describes_of_unembed? {code : Code} {t : Term} (h : unembed? code = some t) :
    (Code.packedDatatype? code.datatypeNumber).isSome = true ∧
      RecordKind.typedLiteral.Describes t := by
  obtain ⟨datatype, hdatatype, hliteral⟩ := Option.bind_eq_some_iff.1 h
  obtain ⟨label, -, rfl⟩ := Option.map_eq_some_iff.1 hliteral
  exact ⟨Option.isSome_iff_exists.2 ⟨datatype, hdatatype⟩, rfl, rfl, rfl⟩

namespace TermDictionary

variable [Text.Hasher] {d : TermDictionary} {t : Term} {code : Code} {key : Key}

omit [Text.Hasher] in
/-- The kind of a key is the kind of its term. -/
lemma Keyed.describes (h : d.Keyed t key) : key.kind.Describes t := by
  cases h with
  | whole | crowdedOut | namespaced | blank | simple | tagged | typed => exact ⟨rfl, rfl, rfl⟩

/-- The kind of an indexed code is read from its record. -/
lemma kindOf_of_read (hnull : code.isNull = false) (hcode : code.isEmbedded = false) :
    d.kindOf code = (d.records.read code).map fun key => some key.kind := by
  rw [kindOf, hnull, if_neg Bool.false_ne_true, hcode, if_neg Bool.false_ne_true]

/-- **A code that is decoded has the kind of its term.** -/
theorem Sound.kindOf_of_decode (hd : d.Sound) (h : (d.decode code).answer = .ok t) :
    ∃ kind : RecordKind, d.kindOf code = .ok (some kind) ∧ kind.Describes t := by
  have hnull : code.isNull = false := by
    rw [Code.isNull, beq_eq_false_iff_ne]
    rintro rfl
    cases h
  cases hcode : code.isEmbedded with
  | true =>
    rw [answer_decode_of_embedded hcode] at h
    cases hunembed : unembed? code with
    | none =>
      rw [hunembed] at h
      cases h
    | some own =>
      rw [hunembed] at h
      obtain rfl := Except.ok.inj h
      obtain ⟨hdatatype, hdescribes⟩ := describes_of_unembed? hunembed
      refine ⟨.typedLiteral, ?_, hdescribes⟩
      rw [kindOf, hnull, if_neg Bool.false_ne_true, if_pos hcode, if_pos hdatatype]
  | false =>
    rcases hd.decode_cases hcode with ⟨own, hcoded, hok⟩ | ⟨-, herror⟩
    · obtain rfl := Except.ok.inj (hok.symm.trans h)
      obtain ⟨-, key, hkeyed, hissued⟩ := hcoded
      refine ⟨key.kind, ?_, hkeyed.describes⟩
      rw [kindOf_of_read hnull hcode, hd.records.read_eq_ok_iff_issued.2 hissued]
      rfl
    · cases herror.symm.trans h

/-- **The codes that cannot be decoded have no kind**, and no other failure is possible. -/
theorem Sound.kindOf_eq_unknownCode_iff (hd : d.Sound) (hnull : code.isNull = false)
    (hcode : code.isEmbedded = false) :
    d.kindOf code = .error (.unknownCode code) ↔
      (d.decode code).answer = .error (.unknownCode code) := by
  rcases hd.decode_cases hcode with ⟨t, -, hok⟩ | ⟨hnone, herror⟩
  · obtain ⟨kind, hkind, -⟩ := hd.kindOf_of_decode hok
    rw [hok, hkind]
    exact iff_of_false (fun h => by cases h) (fun h => by cases h)
  · refine iff_of_true ?_ herror
    rw [kindOf_of_read hnull hcode]
    cases hread : d.records.read code with
    | error error =>
      rw [Records.read_eq_error hread]
      rfl
    | ok key =>
      have hissued := hd.records.read_eq_ok_iff_issued.1 hread
      obtain ⟨t, hplain, hkeyed⟩ := hd.keyed hissued
      exact absurd ⟨hplain, key, hkeyed, hissued⟩ (hnone t)

/-! ## The four questions -/

/-- Whether the code stands for a literal, an IRI, a blank node, and a resource. -/
def classification (d : TermDictionary) (code : Code) : List (Except DictionaryError Bool) :=
  [d.isLiteral code, d.isIri code, d.isBlankNode code, d.isResource code]

/-- What the kind tells is the answer. -/
lemma classification_of_describes {kind : RecordKind} (h : d.kindOf code = .ok (some kind))
    (hdescribes : kind.Describes t) :
    d.classification code = [.ok t.isLiteral, .ok t.isIri, .ok t.isBlank, .ok (!t.isLiteral)] := by
  rw [classification, isLiteral, isIri, isBlankNode, isResource, h, ← hdescribes.literal,
    ← hdescribes.iri, ← hdescribes.blank]
  rfl

/-- The four questions fail together, for lack of a kind. -/
lemma eq_error_iff_of_mem_classification {answer : Except DictionaryError Bool}
    {error : DictionaryError} (h : answer ∈ d.classification code) :
    answer = .error error ↔ d.kindOf code = .error error := by
  have hmap : ∀ f : Option RecordKind → Bool,
      (d.kindOf code).map f = .error error ↔ d.kindOf code = .error error := by
    intro f
    cases d.kindOf code with
    | error own => exact Iff.of_eq (by simp [Except.map])
    | ok kind => exact iff_of_false (fun h => by cases h) (fun h => by cases h)
  simp only [classification, List.mem_cons, List.not_mem_nil, or_false] at h
  rcases h with rfl | rfl | rfl | rfl
  · exact hmap _
  · exact hmap _
  · exact hmap _
  · exact hmap _

/-- **Classification agrees with decoding.**  Whatever a dictionary has been asked for, and whatever
its caches keep, a code that is decoded has the kind of its term, and the null code has none.  Any
other code that is not embedded is refused as unknown by each of the four questions exactly if it is
refused when it is decoded. -/
theorem classification_agrees (config : Config) (requests : List Request) (code : Code) :
    let d := (create config).serveAll requests
    (∀ t, (d.decode code).answer = .ok t →
      d.classification code =
        [.ok t.isLiteral, .ok t.isIri, .ok t.isBlank, .ok (!t.isLiteral)]) ∧
    (code = .null → d.classification code = [.ok false, .ok false, .ok false, .ok false]) ∧
    (code ≠ .null → code.isEmbedded = false → ∀ answer ∈ d.classification code,
      (answer = .error (.unknownCode code) ↔
        (d.decode code).answer = .error (.unknownCode code))) := by
  intro d
  have hd : d.Sound := ((create_sound config).serveAll requests).sound
  refine ⟨?_, ?_, ?_⟩
  · intro t hdecode
    obtain ⟨kind, hkind, hdescribes⟩ := hd.kindOf_of_decode hdecode
    exact classification_of_describes hkind hdescribes
  · rintro rfl
    rfl
  · intro hnull hcode answer hanswer
    rw [eq_error_iff_of_mem_classification hanswer]
    exact hd.kindOf_eq_unknownCode_iff (beq_eq_false_iff_ne.2 hnull) hcode

end TermDictionary

/-- A blank node that is known, and a code that leads into the middle of its identifier, where the
bytes look like the record of another one. -/
theorem TermDictionary.classification_agrees_disguised :
    let d := (create {}).serveAll [.encode (.blank "xxP\x01a"), .decode ⟨1⟩]
    d.classification ⟨1⟩ = [.ok false, .ok false, .ok true, .ok true] ∧
      d.records.keyAt? ⟨2⟩ = some ⟨.blankNode, 0, "a"⟩ ∧
      ∀ answer ∈ d.classification ⟨2⟩, answer = .error (.unknownCode ⟨2⟩) := by
  intro d
  refine ⟨?_, by decide +kernel, ?_⟩
  · have hdecode : (d.decode ⟨1⟩).answer = .ok (.blank "xxP\x01a") := by decide +kernel
    exact (classification_agrees {} _ ⟨1⟩).1 _ hdecode
  · have hunknown : (d.decode ⟨2⟩).answer = .error (.unknownCode ⟨2⟩) := by decide +kernel
    intro answer hanswer
    exact ((classification_agrees {} _ ⟨2⟩).2.2 (by decide) (by decide) answer hanswer).2 hunknown

end Dictionary

end QuadBase
