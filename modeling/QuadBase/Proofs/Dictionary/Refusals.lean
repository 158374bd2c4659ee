import QuadBase.Proofs.Dictionary.Lookup
import QuadBase.Proofs.Dictionary.Words
import QuadBase.Dictionary.Stats

/-!
# Terms that find no room

Encoding a new term can fail at four points: its language or datatype has no room in the vocabulary,
its value is too long to be kept at all, the primary arena has no room for the record, or the
secondary arena none for the value.  The first of them in this order decides the error.

* `outline` — the kind and the value that a term would be kept under, and so the size of its record.
* `Refusal` — why a term is refused, with the error, and `exists_refusal_iff` — whether it is.
* `Sound.encode_eq_error_iff` — **encoding fails exactly if the term is new and refused.**
* `Unharmed` — what a failure leaves as it was, and `Sound.unharmed_encode` — that it does.
* `encode_refused` — both for every reachable dictionary.
-/

namespace QuadBase.Dictionary

open QuadBase.Rdf

/-! ## Room in the arenas -/

namespace Records

variable {r : Records} {key : Key} {inlineLimit : Nat} {e : DictionaryError}

/-- The value has to be kept outside its record, and is longer than a length can tell, or the
secondary arena would not end where offsets still fit. -/
def ExceedsSecondary (r : Records) (key : Key) (inlineLimit : Nat) : Prop :=
  key.isInlined inlineLimit = false ∧
    (Nat.pow 256 lengthWidth ≤ key.value.utf8ByteSize ∨
      secondaryLimit < r.secondary.size + (lengthWidth + key.value.utf8ByteSize))

/-- The record would not end within the limit of the primary arena. -/
def ExceedsPrimary (r : Records) (key : Key) (inlineLimit : Nat) : Prop :=
  r.primaryLimit < r.nextOffset + key.recordSize inlineLimit

/-- Why a new key gets no record. -/
inductive Refusal (r : Records) (key : Key) (inlineLimit : Nat) : DictionaryError → Prop where
  | long (outside : key.isInlined inlineLimit = false)
      (long : Nat.pow 256 lengthWidth ≤ key.value.utf8ByteSize) :
      Refusal r key inlineLimit (.exhausted .secondary secondaryLimit)
  | primary (short : key.isInlined inlineLimit = false →
        key.value.utf8ByteSize < Nat.pow 256 lengthWidth)
      (exceeds : r.ExceedsPrimary key inlineLimit) :
      Refusal r key inlineLimit (.exhausted .primary r.primaryLimit)
  | secondary (fits : ¬ r.ExceedsPrimary key inlineLimit)
      (exceeds : r.ExceedsSecondary key inlineLimit)
      (short : key.value.utf8ByteSize < Nat.pow 256 lengthWidth) :
      Refusal r key inlineLimit (.exhausted .secondary secondaryLimit)

/-- A key is refused if one of the arenas has no room for it. -/
lemma exists_refusal_iff : (∃ e, r.Refusal key inlineLimit e) ↔
    r.ExceedsSecondary key inlineLimit ∨ r.ExceedsPrimary key inlineLimit := by
  constructor
  · rintro ⟨e, ⟨outside, long⟩ | ⟨-, exceeds⟩ | ⟨-, exceeds, -⟩⟩
    · exact Or.inl ⟨outside, Or.inl long⟩
    · exact Or.inr exceeds
    · exact Or.inl exceeds
  · intro hexceeds
    by_cases hlong : key.isInlined inlineLimit = false ∧
        Nat.pow 256 lengthWidth ≤ key.value.utf8ByteSize
    · exact ⟨_, .long hlong.1 hlong.2⟩
    · have hshort : key.isInlined inlineLimit = false →
          key.value.utf8ByteSize < Nat.pow 256 lengthWidth :=
        fun houtside => Nat.not_le.1 fun h => hlong ⟨houtside, h⟩
      by_cases hprimary : r.ExceedsPrimary key inlineLimit
      · exact ⟨_, .primary hshort hprimary⟩
      · have hsecondary := hexceeds.resolve_right hprimary
        exact ⟨_, .secondary hprimary hsecondary (hshort hsecondary.1)⟩

/-- The next record has a code if it ends within the limit. -/
lemma nextCode_eq {draft : Draft} (hpos : 1 ≤ r.primary.size)
    (hlimit : r.primaryLimit ≤ Code.maxOffset) : ∃ code, r.nextCode draft =
      if r.primaryLimit < r.nextOffset + draft.primary.length then
        .error (.exhausted .primary r.primaryLimit)
      else if draft.secondary.isSome ∧
          secondaryLimit < r.secondary.size + (draft.secondary.map List.length).getD 0 then
        .error (.exhausted .secondary secondaryLimit)
      else .ok code := by
  simp only [nextCode]
  by_cases hfull : r.primaryLimit < r.nextOffset + draft.primary.length
  · refine ⟨.null, ?_⟩
    have hnone : (Code.ofOffset? r.nextOffset).filter
        (fun _ => r.nextOffset + draft.primary.length ≤ r.primaryLimit) = none := by
      rw [Option.filter_eq_none_iff]
      intro code _
      simpa using hfull
    rw [if_pos hfull, hnone]
  · have hrange : 0 < r.nextOffset / Code.alignment ∧
        r.nextOffset / Code.alignment < Code.embeddedStart := by
      simp only [nextOffset, Code.alignment, Code.maxOffset, Code.embeddedStart] at *
      omega
    have hsome : (Code.ofOffset? r.nextOffset).filter
        (fun _ => r.nextOffset + draft.primary.length ≤ r.primaryLimit) =
          some ⟨UInt32.ofNat (r.nextOffset / Code.alignment)⟩ := by
      rw [Option.filter_eq_some_iff, Code.ofOffset?]
      exact ⟨if_pos hrange, decide_eq_true (Nat.not_lt.1 hfull)⟩
    refine ⟨⟨UInt32.ofNat (r.nextOffset / Code.alignment)⟩, ?_⟩
    rw [if_neg hfull, hsome]
    simp only [Bool.and_eq_true, decide_eq_true_eq]

/-- The steps of preparing a record, in this order. -/
lemma prepare_cases (key : Key) (inlineLimit : Nat) (hpos : 1 ≤ r.primary.size)
    (hlimit : r.primaryLimit ≤ Code.maxOffset) :
    (key.isInlined inlineLimit = false ∧ Nat.pow 256 lengthWidth ≤ key.value.utf8ByteSize ∧
      r.prepare key inlineLimit = .error (.exhausted .secondary secondaryLimit)) ∨
    ((key.isInlined inlineLimit = false → key.value.utf8ByteSize < Nat.pow 256 lengthWidth) ∧
      ∃ prepared, r.prepare key inlineLimit =
        if r.primaryLimit < r.nextOffset + key.recordSize inlineLimit then
          .error (.exhausted .primary r.primaryLimit)
        else if key.isInlined inlineLimit = false ∧
            secondaryLimit < r.secondary.size + (lengthWidth + key.value.utf8ByteSize) then
          .error (.exhausted .secondary secondaryLimit)
        else .ok prepared) := by
  rw [prepare]
  cases hdraft : key.draft inlineLimit with
  | error error =>
    rw [Key.draft] at hdraft
    split at hdraft
    next => cases hdraft
    next houtside =>
      split at hdraft
      next => cases hdraft
      next hlong =>
        obtain rfl := Except.error.inj hdraft
        exact Or.inl ⟨Bool.not_eq_true _ ▸ houtside, Nat.not_lt.1 hlong, rfl⟩
  | ok draft =>
    obtain ⟨hbytes, hsecondary, hshort⟩ := Key.draft_eq_ok hdraft
    have hlength : draft.primary.length = key.recordSize inlineLimit := by
      rw [hbytes, Key.length_record]
    obtain ⟨code, hcode⟩ : ∃ code, r.nextCode draft = _ := nextCode_eq hpos hlimit
    refine Or.inr ⟨fun _ => hshort, (draft, code), ?_⟩
    rw [Except.bind, hcode, hlength, hsecondary]
    by_cases hprimary : r.primaryLimit < r.nextOffset + key.recordSize inlineLimit
    · rw [if_pos hprimary, if_pos hprimary]
      rfl
    · rw [if_neg hprimary, if_neg hprimary]
      cases hinline : key.isInlined inlineLimit with
      | true => rfl
      | false =>
        have hspilled : (key.spilled inlineLimit).length =
            lengthWidth + key.value.utf8ByteSize := by
          rw [Key.spilled, hinline, if_neg Bool.false_ne_true, List.length_append,
            length_littleEndian, length_utf8]
        simp only [Bool.false_eq_true, if_false, Option.isSome_some, Option.map_some,
          Option.getD_some, hspilled, true_and]
        split
        · rfl
        · rfl

/-- **A new key gets no record exactly if an arena has no room for it.** -/
theorem prepare_eq_error_iff (hpos : 1 ≤ r.primary.size) (hlimit : r.primaryLimit ≤ Code.maxOffset) :
    r.prepare key inlineLimit = .error e ↔ r.Refusal key inlineLimit e := by
  rcases prepare_cases key inlineLimit hpos hlimit with
    ⟨houtside, hlong, hprepare⟩ | ⟨hshort, prepared, hprepare⟩
  · rw [hprepare]
    constructor
    · rintro heq
      obtain rfl := Except.error.inj heq
      exact .long houtside hlong
    · rintro (⟨-, -⟩ | ⟨hshort, -⟩ | ⟨-, -, hshort⟩)
      · rfl
      · exact absurd hlong (Nat.not_le.2 (hshort houtside))
      · exact absurd hlong (Nat.not_le.2 hshort)
  · rw [hprepare]
    constructor
    · intro heq
      split at heq
      next hprimary =>
        obtain rfl := Except.error.inj heq
        exact .primary hshort hprimary
      next hfits =>
        split at heq
        next hsecondary =>
          obtain rfl := Except.error.inj heq
          exact .secondary hfits ⟨hsecondary.1, Or.inr hsecondary.2⟩ (hshort hsecondary.1)
        next => cases heq
    · rintro (⟨houtside, hlong⟩ | ⟨-, hprimary⟩ | ⟨hfits, ⟨houtside, hsecondary⟩, hshort⟩)
      · exact absurd hlong (Nat.not_le.2 (hshort houtside))
      · exact if_pos hprimary
      · exact (if_neg hfits).trans
          (if_pos ⟨houtside, hsecondary.resolve_left (Nat.not_le.2 hshort)⟩)

/-- Only the kind and the value of a key take room. -/
lemma Refusal.congr {other : Key} (h : r.Refusal key inlineLimit e) (hkind : other.kind = key.kind)
    (hvalue : other.value = key.value) : r.Refusal other inlineLimit e := by
  obtain ⟨kind, index, value⟩ := key
  obtain ⟨kind', index', value'⟩ := other
  obtain rfl : kind' = kind := hkind
  obtain rfl : value' = value := hvalue
  cases h with
  | long outside long => exact .long outside long
  | primary short exceeds => exact .primary short exceeds
  | secondary fits exceeds short => exact .secondary fits exceeds short

/-- The primary arena is never empty, as the first byte belongs to no record. -/
lemma Layout.primary_size_pos [Text.Hasher] {config : Config} {entries : List Entry}
    (h : r.Layout config entries) : 1 ≤ r.primary.size := by
  rw [h.primary_size, Entry.frontier]
  cases entries.getLast? with
  | none => exact le_refl 1
  | some entry => exact Nat.le_trans Key.recordSize_pos (Nat.le_add_left _ _)

end Records

/-- Interning a text adds it behind the others, or changes nothing. -/
lemma Vocabulary.intern_texts [Text.Hasher] (v : Vocabulary) (text : String) :
    (v.intern text).2 = v ∨ (v.intern text).2.texts = v.texts.push text := by
  rw [intern]
  split
  · exact Or.inl rfl
  · split
    · exact Or.inl rfl
    · rw [add_eq]
      exact Or.inr rfl
  · exact Or.inl rfl

namespace TermDictionary

variable [Text.Hasher] {d : TermDictionary} {t : Term} {code : Code} {error : DictionaryError}

/-! ## Why a term is refused -/

/-- The kind and the value that a term would be kept under, without the number.  An IRI is kept
whole if it has no namespace, or one that is unknown and finds no room. -/
def outline (d : TermDictionary) : Term → Key
  | .resource (.iri iri) =>
    match iri.split? with
    | none => ⟨.iri, 0, iri.text⟩
    | some (space, name) =>
      if (d.namespaces.number? space).isSome ∨ d.namespaces.size < Vocabulary.capacity then
        ⟨.namespacedIri, 0, name⟩
      else ⟨.iri, 0, iri.text⟩
  | .resource (.blank id) => ⟨.blankNode, 0, id⟩
  | .literal (.simple label) => ⟨.simpleLiteral, 0, label⟩
  | .literal (.tagged label _) => ⟨.languageLiteral, 0, label⟩
  | .literal (.typed label _) => ⟨.typedLiteral, 0, label⟩

/-- The language or the datatype of a literal is unknown, and its vocabulary is full. -/
def TableFull (d : TermDictionary) (t : Term) (name : VocabularyName) : Prop :=
  name ≠ .namespaces ∧ ∃ text, wordOf? t = some (name, text) ∧
    (d.vocabulary name).number? text = none ∧ (d.vocabulary name).size = Vocabulary.capacity

/-- Why a new term gets no code. -/
inductive Refusal (d : TermDictionary) (t : Term) : DictionaryError → Prop where
  | tableFull {name : VocabularyName} (full : d.TableFull t name) :
      Refusal d t (.tableFull name Vocabulary.capacity)
  | exhausted {error : DictionaryError} (room : ∀ name, ¬ d.TableFull t name)
      (refusal : d.records.Refusal (d.outline t) d.config.inlineLimit error) : Refusal d t error

/-- **A term is refused if a vocabulary or an arena has no room for it.** -/
theorem exists_refusal_iff : (∃ error, d.Refusal t error) ↔
    (∃ name, d.TableFull t name) ∨
      d.records.ExceedsSecondary (d.outline t) d.config.inlineLimit ∨
      d.records.ExceedsPrimary (d.outline t) d.config.inlineLimit := by
  rw [← Records.exists_refusal_iff]
  constructor
  · rintro ⟨error, full | ⟨-, refusal⟩⟩
    · exact Or.inl ⟨_, full⟩
    · exact Or.inr ⟨error, refusal⟩
  · intro h
    by_cases hfull : ∃ name, d.TableFull t name
    · obtain ⟨name, hname⟩ := hfull
      exact ⟨_, .tableFull hname⟩
    · obtain ⟨error, refusal⟩ := h.resolve_left hfull
      exact ⟨error, .exhausted (not_exists.1 hfull) refusal⟩

lemma tableFull_iff {name : VocabularyName} {text : String}
    (hword : wordOf? t = some (name, text)) (hname : name ≠ .namespaces) (other : VocabularyName) :
    d.TableFull t other ↔ other = name ∧ (d.vocabulary name).number? text = none ∧
      (d.vocabulary name).size = Vocabulary.capacity := by
  constructor
  · rintro ⟨-, found, hfound, hunknown, hfull⟩
    obtain ⟨rfl, rfl⟩ := Prod.mk.inj (Option.some.inj (hword.symm.trans hfound))
    exact ⟨rfl, hunknown, hfull⟩
  · rintro ⟨rfl, hunknown, hfull⟩
    exact ⟨hname, text, hword, hunknown, hfull⟩

/-- A vocabulary has a number for a word, or it is full and does not know the word. -/
lemma numbered_intern {v : Vocabulary} (hv : v.Sound) (name : VocabularyName) (text : String) :
    (v.number? text = none ∧ v.size = Vocabulary.capacity ∧
      numbered name (v.intern text).1 = .error (.tableFull name Vocabulary.capacity)) ∨
    (¬ (v.number? text = none ∧ v.size = Vocabulary.capacity) ∧
      ∃ number, numbered name (v.intern text).1 = .ok number) := by
  rcases hv.intern_cases text with ⟨number, htext, heq⟩ | ⟨hnew, hfull, heq⟩ |
    ⟨-, hroom, number, w, heq, -⟩
  · refine Or.inr ⟨?_, number, by rw [heq, numbered]⟩
    rintro ⟨hnone, -⟩
    exact hv.number?_eq_none_iff.1 hnone number htext
  · exact Or.inl ⟨hnew, Nat.le_antisymm hv.size_le hfull, by rw [heq, numbered]⟩
  · exact Or.inr ⟨fun h => hroom.ne h.2, number, by rw [heq, numbered]⟩

/-- **Taking a term apart fails if its vocabulary is full**, and otherwise gives the key that has
been outlined. -/
theorem Worded.internKey_cases (hd : d.Worded) (t : Term) :
    (∃ name, d.TableFull t name ∧
      (d.internKey t).1 = .error (.tableFull name Vocabulary.capacity)) ∨
    ((∀ name, ¬ d.TableFull t name) ∧ ∃ key, (d.internKey t).1 = .ok key ∧
      key.kind = (d.outline t).kind ∧ key.value = (d.outline t).value) := by
  have hnoWord : (∀ name text, wordOf? t = some (name, text) → name = .namespaces) →
      ∀ name, ¬ d.TableFull t name :=
    fun h name ⟨hname, text, hword, _⟩ => hname (h name text hword)
  match t with
  | .resource (.iri iri) =>
    refine Or.inr ⟨hnoWord ?_, ?_⟩
    · intro name text hword
      obtain ⟨_, -, heq⟩ := Option.map_eq_some_iff.1 hword
      exact (Prod.mk.inj heq).1.symm
    · rw [internKey, outline]
      cases iri.split? with
      | none => exact ⟨_, rfl, rfl, rfl⟩
      | some parts =>
        obtain ⟨space, name⟩ := parts
        rcases hd.namespaces.intern_cases space with ⟨number, htext, heq⟩ | ⟨hnew, hfull, heq⟩ |
          ⟨-, hroom, number, w, heq, -⟩
        · have hknown := hd.namespaces.number?_eq_some_iff.2 htext
          simp only [heq, hknown, Option.isSome_some, true_or, if_true]
          exact ⟨_, rfl, rfl, rfl⟩
        · simp only [heq, hnew, Option.isSome_none, Bool.false_eq_true, false_or,
            Nat.not_lt.2 hfull, if_false]
          exact ⟨_, rfl, rfl, rfl⟩
        · simp only [heq, hroom, or_true, if_true]
          exact ⟨_, rfl, rfl, rfl⟩
  | .resource (.blank id) => exact Or.inr ⟨hnoWord (by simp [wordOf?]), _, rfl, rfl, rfl⟩
  | .literal (.simple label) => exact Or.inr ⟨hnoWord (by simp [wordOf?]), _, rfl, rfl, rfl⟩
  | .literal (.tagged label language) =>
    have hfull := tableFull_iff (d := d) (t := .literal (.tagged label language)) rfl (by decide)
    have hkey : (d.internKey (.literal (.tagged label language))).1 =
      (numbered .languages (d.languages.intern language).1).map (⟨.languageLiteral, ·, label⟩) := rfl
    rw [hkey]
    rcases numbered_intern hd.languages .languages language with
      ⟨hnew, hsize, heq⟩ | ⟨hroom, number, heq⟩
    · exact Or.inl ⟨.languages, (hfull _).2 ⟨rfl, hnew, hsize⟩, by rw [heq]; rfl⟩
    · exact Or.inr ⟨fun name h => hroom ((hfull name).1 h).2,
        ⟨.languageLiteral, number, label⟩, by rw [heq]; rfl, rfl, rfl⟩
  | .literal (.typed label datatype) =>
    have hfull := tableFull_iff (d := d) (t := .literal (.typed label datatype)) rfl (by decide)
    have hkey : (d.internKey (.literal (.typed label datatype))).1 =
      (numbered .datatypes (d.datatypes.intern datatype.iri.text).1).map
        (⟨.typedLiteral, ·, label⟩) := rfl
    rw [hkey]
    rcases numbered_intern hd.datatypes .datatypes datatype.iri.text with
      ⟨hnew, hsize, heq⟩ | ⟨hroom, number, heq⟩
    · exact Or.inl ⟨.datatypes, (hfull _).2 ⟨rfl, hnew, hsize⟩, by rw [heq]; rfl⟩
    · exact Or.inr ⟨fun name h => hroom ((hfull name).1 h).2,
        ⟨.typedLiteral, number, label⟩, by rw [heq]; rfl, rfl, rfl⟩

/-! ## Exactness -/

/-- A new term is registered unless it is refused. -/
lemma Sound.register_eq_error_iff (hd : d.Sound) (hpos : 1 ≤ d.records.primary.size)
    (hlimit : d.records.primaryLimit ≤ Code.maxOffset) (hplain : embed? t = none)
    (hnew : ∀ code, ¬ d.Coded t code) : (d.register t).1 = .error error ↔ d.Refusal t error := by
  rw [register]
  cases hintern : d.internKey t with
  | mk answer e =>
    obtain ⟨he, hlearns, honly, hkeyed⟩ := internKey_spec hd.worded hintern
    have hfollows := hd.follows_of_onlyWords he hlearns honly
    rcases hd.worded.internKey_cases t with ⟨name, hfull, hanswer⟩ |
      ⟨hroom, key, hanswer, hkind, hvalue⟩
    · rw [hintern] at hanswer
      obtain rfl : answer = .error (.tableFull name Vocabulary.capacity) := hanswer
      constructor
      · intro h
        obtain rfl := Except.error.inj h
        exact .tableFull hfull
      · rintro (⟨-, text, hword, -⟩ | ⟨hroom, -⟩)
        · obtain ⟨-, found, hfound, -⟩ := hfull
          rw [(Prod.mk.inj (Option.some.inj (hword.symm.trans hfound))).1]
        · exact absurd hfull (hroom name)
    · rw [hintern] at hanswer
      obtain rfl : answer = .ok key := hanswer
      have hcoded := fun code hissued => (⟨hplain, key, hkeyed key rfl, hissued⟩ : e.Coded t code)
      obtain ⟨_, _, _, rfl⟩ := honly
      have hunissued : ∀ code, ¬ d.records.Issued code key := fun code hissued =>
        hnew code (hfollows.coded_of_issued hd (hcoded code hissued) hissued)
      change (d.records.insert key d.config.inlineLimit).1 = .error error ↔ d.Refusal t error
      have hinsert : (d.records.insert key d.config.inlineLimit).1 = .error error ↔
          d.records.Refusal key d.config.inlineLimit error := by
        rw [← Records.prepare_eq_error_iff hpos hlimit]
        rcases hd.records.insert_steps key d.config.inlineLimit with ⟨code, hissued, -⟩ |
          ⟨own, -, hprepare, hinsert⟩ | ⟨draft, code, position, -, hprepare, -, hinsert⟩
        · exact absurd hissued (hunissued code)
        · simp [hinsert, hprepare]
        · simp [hinsert, hprepare]
      rw [hinsert]
      constructor
      · exact fun h => .exhausted hroom (h.congr hkind.symm hvalue.symm)
      · rintro (hfull | ⟨-, h⟩)
        · exact absurd hfull (hroom _)
        · exact h.congr hkind hvalue

/-- **Encoding fails exactly if the term is new and refused.** -/
theorem Sound.encode_eq_error_iff (hd : d.Sound) (hpos : 1 ≤ d.records.primary.size)
    (hlimit : d.records.primaryLimit ≤ Code.maxOffset) :
    (d.encode t).answer = .error error ↔
      embed? t = none ∧ (∀ code, ¬ d.Coded t code) ∧ d.Refusal t error := by
  cases hembed : embed? t with
  | some packed =>
    have hanswer : (d.encode t).answer = .ok packed := by rw [TermDictionary.encode, hembed]
    simp [hanswer]
  | none =>
    rw [(hd.encode_eq_register hembed).1, eq_self, true_and]
    by_cases hknown : ∃ code, d.Coded t code
    · obtain ⟨code, hcoded⟩ := hknown
      rw [hcoded.register hd]
      constructor
      · intro h
        cases h
      · rintro ⟨hnew, -⟩
        exact absurd hcoded (hnew code)
    · rw [not_exists] at hknown
      rw [hd.register_eq_error_iff hpos hlimit hembed hknown]
      exact (and_iff_right hknown).symm

/-! ## Containment -/

/-- What a failed call must leave as it was, and the little that it may add. -/
structure Unharmed (d e : TermDictionary) : Prop where
  decode : ∀ code, (e.decode code).answer = (d.decode code).answer
  kindOf : ∀ code, e.kindOf code = d.kindOf code
  isLiteral : ∀ code, e.isLiteral code = d.isLiteral code
  isIri : ∀ code, e.isIri code = d.isIri code
  isBlankNode : ∀ code, e.isBlankNode code = d.isBlankNode code
  isResource : ∀ code, e.isResource code = d.isResource code
  tryEncode : ∀ t, (e.tryEncode t).answer = (d.tryEncode t).answer
  /-- The counted calls and all sizes but those of the vocabularies. -/
  stats : ∀ calls, e.stats calls = { d.stats calls with
    namespaces := e.namespaces.size, languages := e.languages.size, datatypes := e.datatypes.size }
  /-- At most one word has been added, behind those of its vocabulary. -/
  words : (∀ name, e.vocabulary name = d.vocabulary name) ∨
    ∃ name word, (e.vocabulary name).texts = (d.vocabulary name).texts.push word ∧
      ∀ other, other ≠ name → e.vocabulary other = d.vocabulary other

/-- A call fails where a word or the record is refused, and what has been learned stays. -/
lemma encode_of_error (h : (d.encode t).answer = .error error) : embed? t = none ∧
    ((∃ e, d.internKey t = (.error error, e) ∧ d.encode t = ⟨.error error, .none, e⟩) ∨
      ∃ key e f, d.internKey t = (.ok key, e) ∧ e.insertKey key = (.error error, f) ∧
        d.encode t = ⟨.error error, .none, f⟩) := by
  rw [encode] at h ⊢
  cases hembed : embed? t with
  | some packed =>
    rw [hembed] at h
    cases h
  | none =>
    cases hcached : d.cachedCode? t with
    | some cached =>
      rw [hembed, hcached] at h
      cases h
    | none =>
      rw [hembed, hcached] at h
      refine ⟨rfl, ?_⟩
      cases hintern : d.internKey t with
      | mk answer e =>
        cases answer with
        | error own =>
          rw [hintern] at h
          obtain rfl := Except.error.inj h
          exact Or.inl ⟨e, rfl, rfl⟩
        | ok key =>
          cases hinsert : e.insertKey key with
          | mk answer f =>
            simp only [hintern, hinsert] at h ⊢
            cases answer with
            | error own =>
              obtain rfl := Except.error.inj h
              exact Or.inr ⟨key, e, f, rfl, hinsert, rfl⟩
            | ok code => cases h

/-- A call that fails is not counted. -/
lemma calls_of_error (h : (d.encode t).answer = .error error) : (d.encode t).calls = .none := by
  obtain ⟨-, ⟨e, -, hencode⟩ | ⟨key, e, f, -, -, hencode⟩⟩ := encode_of_error h
  · rw [hencode]
  · rw [hencode]

/-- The vocabulary of the word may get longer by it, and no other changes. -/
lemma words_learnFor (d : TermDictionary) (t : Term) :
    (∀ name, (d.learnFor t).vocabulary name = d.vocabulary name) ∨
      ∃ name word, ((d.learnFor t).vocabulary name).texts = (d.vocabulary name).texts.push word ∧
        ∀ other, other ≠ name → (d.learnFor t).vocabulary other = d.vocabulary other := by
  rw [learnFor]
  cases wordOf? t with
  | none => exact Or.inl fun _ => rfl
  | some named =>
    obtain ⟨name, word⟩ := named
    rw [Option.elim_some]
    rcases (d.vocabulary name).intern_texts word with hsame | hpush
    · refine Or.inl fun other => ?_
      rw [vocabulary_learn]
      split
      next heq => rw [hsame, heq]
      next => rfl
    · refine Or.inr ⟨name, word, ?_, fun other hother => ?_⟩
      · rw [vocabulary_learn, if_pos rfl, hpush]
      · rw [vocabulary_learn, if_neg hother]

/-- **A call that fails leaves everything as it was**, except that it may have added a word. -/
theorem Sound.unharmed_encode (hd : d.Sound) (h : (d.encode t).answer = .error error) :
    d.Unharmed (d.encode t).dictionary := by
  have hrecords : (d.encode t).dictionary.records = d.records := by
    rcases hd.records_encode t with hsame | ⟨-, code, -, -, hanswer, -⟩
    · exact hsame
    · cases h.symm.trans hanswer
  have hfollows := (hd.encode t).1
  have he := hfollows.sound
  have hwords := d.learns_encode t
  generalize (d.encode t).dictionary = e at *
  have hcoded : ∀ {t code}, e.Coded t code ↔ d.Coded t code := by
    intro t code
    refine ⟨fun hcoded => ?_, fun hcoded => hfollows.coded hcoded⟩
    obtain ⟨-, key, -, hissued⟩ := id hcoded
    exact hfollows.coded_of_issued hd hcoded (hrecords ▸ hissued)
  have hkind : ∀ code, e.kindOf code = d.kindOf code := fun code => by
    rw [TermDictionary.kindOf, TermDictionary.kindOf, hrecords]
  refine ⟨?_, hkind, ?_, ?_, ?_, ?_, ?_, ?_, ?_⟩
  · intro code
    cases hcode : code.isEmbedded with
    | true => exact decode_embedded hcode
    | false =>
      rcases hd.decode_cases hcode with ⟨t, hold, hok⟩ | ⟨hnone, herror⟩
      · rw [hok, Represents.decode (Or.inr (hcoded.2 hold)) he]
      · rcases he.decode_cases hcode with ⟨t, hnew, -⟩ | ⟨-, herror'⟩
        · exact absurd (hcoded.1 hnew) (hnone t)
        · rw [herror, herror']
  · exact fun code => congrArg (Except.map _) (hkind code)
  · exact fun code => congrArg (Except.map _) (hkind code)
  · exact fun code => congrArg (Except.map _) (hkind code)
  · exact fun code => congrArg (Except.map _) (hkind code)
  · intro t
    ext code
    rw [he.tryEncode_eq_some_iff, hd.tryEncode_eq_some_iff]
    exact or_congr Iff.rfl hcoded
  · intro calls
    rw [TermDictionary.stats, TermDictionary.stats, hrecords]
  · rcases hwords with hsame | hlearned
    · exact Or.inl hsame
    · simp only [hlearned]
      exact d.words_learnFor t

/-- **Terms are refused exactly for want of room, and at no cost to others.**  Encoding a term fails
if and only if its value is not packed into a code, it has not been given a code yet, and it finds
no room; the errors tell which room is missing.  Then no code is decoded or classified differently
and no term is looked up with a different result, the sizes and the counted calls are as before, and
at most one word has been added to one vocabulary. -/
theorem encode_refused (config : Config) (requests : List Request) (t : Term) :
    let d := (create config).serveAll requests
    let issued := (create config).issuesAll requests
    (∀ error, (d.encode t).answer = .error error ↔
      embed? t = none ∧ (∀ code, (t, code) ∉ issued) ∧ d.Refusal t error) ∧
    ((∃ error, d.Refusal t error) ↔
      (∃ name, d.TableFull t name) ∨
        d.records.ExceedsSecondary (d.outline t) d.config.inlineLimit ∨
        d.records.ExceedsPrimary (d.outline t) d.config.inlineLimit) ∧
    d.records.primaryLimit = min config.primaryLimit Code.maxOffset ∧
    ∀ error, (d.encode t).answer = .error error →
      d.Unharmed (d.encode t).dictionary ∧ (d.encode t).calls = .none := by
  intro d issued
  have hd : d.Sound := ((create_sound config).serveAll requests).sound
  obtain ⟨-, entries, -, hlayout⟩ := tiled_serveAll config requests
  have hpos : 1 ≤ d.records.primary.size := hlayout.primary_size_pos
  have hlimit : d.records.primaryLimit ≤ Code.maxOffset := by
    rw [hlayout.limit]
    exact Nat.min_le_right _ _
  refine ⟨?_, exists_refusal_iff, hlayout.limit,
    fun error h => ⟨hd.unharmed_encode h, calls_of_error h⟩⟩
  intro error
  rw [hd.encode_eq_error_iff hpos hlimit]
  refine and_congr_right fun hplain => and_congr_left fun _ => forall_congr' fun code => ?_
  have hissued : d.Represents t code ↔ embed? t = some code ∨ (t, code) ∈ issued :=
    represents_iff_issued config requests
  rw [Represents, hplain] at hissued
  simpa using not_congr hissued

end TermDictionary

/-- A primary arena with room for one record. -/
theorem TermDictionary.encode_refused_cramped :
    let d := (create { primaryLimit := 8 }).serveAll [.encode (.blank "a")]
    (d.encode (.blank "b")).answer = .error (.exhausted .primary 8) ∧
      d.Refusal (.blank "b") (.exhausted .primary 8) ∧
      d.Unharmed (d.encode (.blank "b")).dictionary := by
  have hanswer : (((create { primaryLimit := 8 }).serveAll [.encode (.blank "a")]).encode
      (.blank "b")).answer = .error (.exhausted .primary 8) := by decide +kernel
  obtain ⟨hexact, -, -, hunharmed⟩ :=
    encode_refused { primaryLimit := 8 } [.encode (.blank "a")] (.blank "b")
  exact ⟨hanswer, ((hexact _).1 hanswer).2.2, (hunharmed _ hanswer).1⟩

end QuadBase.Dictionary
