import QuadBase.Dictionary.Basic
import QuadBase.Proofs.Dictionary.Layout
import QuadBase.Proofs.Dictionary.Vocabulary

/-!
# Terms and their keys

Which key a term is kept under depends on the vocabularies: an IRI is taken apart if its namespace
has a number, and kept whole if the namespaces were full before they knew it.  `Keyed d t key` says
that this is settled in `d`.

* `Keyed.mono` — what is settled stays so, as a full vocabulary learns nothing.
* `internKey_spec` — encoding settles the key.
* `Keyed.existingKey?`, `Keyed.termOf` — the key is found without learning anything, and the term is
  put together from it.
-/

namespace QuadBase.Dictionary.TermDictionary

open QuadBase.Rdf

variable [Text.Hasher] {d e f : TermDictionary} {t other : Term} {key found : Key}

/-! ## The three vocabularies -/

/-- The vocabularies are in order. -/
structure Worded (d : TermDictionary) : Prop where
  namespaces : d.namespaces.Sound
  languages : d.languages.Sound
  datatypes : d.datatypes.Sound

/-- The vocabularies of `e` know everything that those of `d` know. -/
structure Learns (d e : TermDictionary) : Prop where
  namespaces : d.namespaces.Grows e.namespaces
  languages : d.languages.Grows e.languages
  datatypes : d.datatypes.Grows e.datatypes

omit [Text.Hasher] in
lemma Learns.refl (d : TermDictionary) : d.Learns d :=
  ⟨.refl _, .refl _, .refl _⟩

omit [Text.Hasher] in
lemma Learns.trans (h : d.Learns e) (h' : e.Learns f) : d.Learns f :=
  ⟨h.namespaces.trans h'.namespaces, h.languages.trans h'.languages,
    h.datatypes.trans h'.datatypes⟩

/-! ## Settled keys -/

/-- The key under which a term is kept, now and later. -/
inductive Keyed (d : TermDictionary) : Term → Key → Prop where
  | whole {iri : Iri} (split : iri.split? = none) : Keyed d (.iri iri) ⟨.iri, 0, iri.text⟩
  /-- The namespaces were full before they knew this one. -/
  | crowdedOut {iri : Iri} {space name : String} (split : iri.split? = some (space, name))
      (full : Vocabulary.capacity ≤ d.namespaces.size)
      (unknown : ∀ number, d.namespaces.text? number ≠ some space) :
      Keyed d (.iri iri) ⟨.iri, 0, iri.text⟩
  | namespaced {iri : Iri} {space name : String} {number : UInt16}
      (split : iri.split? = some (space, name)) (known : d.namespaces.text? number = some space) :
      Keyed d (.iri iri) ⟨.namespacedIri, number, name⟩
  | blank (id : String) : Keyed d (.blank id) ⟨.blankNode, 0, id⟩
  | simple (label : String) : Keyed d (.literal (.simple label)) ⟨.simpleLiteral, 0, label⟩
  | tagged {language : String} {number : UInt16} (label : String)
      (known : d.languages.text? number = some language) :
      Keyed d (.literal (.tagged label language)) ⟨.languageLiteral, number, label⟩
  | typed {datatype : Datatype} {number : UInt16} (label : String)
      (known : d.datatypes.text? number = some datatype.iri.text) :
      Keyed d (.literal (.typed label datatype)) ⟨.typedLiteral, number, label⟩

omit [Text.Hasher] in
lemma Keyed.normal (h : d.Keyed t key) : key.Normal := by
  intro hindex
  cases h with
  | whole | crowdedOut | blank | simple => rfl
  | namespaced | tagged | typed => cases hindex

lemma Keyed.mono (h : d.Keyed t key) (hlearns : d.Learns e) (he : e.Worded) : e.Keyed t key := by
  cases h with
  | whole split => exact .whole split
  | crowdedOut split full unknown =>
    refine .crowdedOut split (Nat.le_trans full hlearns.namespaces.size_le) ?_
    intro number
    rw [hlearns.namespaces.full he.namespaces full]
    exact unknown number
  | namespaced split known => exact .namespaced split (hlearns.namespaces.text? known)
  | blank id => exact .blank id
  | simple label => exact .simple label
  | tagged label known => exact .tagged label (hlearns.languages.text? known)
  | typed label known => exact .typed label (hlearns.datatypes.text? known)

/-- The key of a term is found without learning anything. -/
theorem Keyed.existingKey? (h : d.Keyed t key) (hd : d.Worded) : d.existingKey? t = some key := by
  cases h with
  | whole split => simp [TermDictionary.existingKey?, split]
  | crowdedOut split full unknown =>
    simp [TermDictionary.existingKey?, split, hd.namespaces.number?_eq_none_iff.2 unknown]
  | namespaced split known =>
    simp [TermDictionary.existingKey?, split, hd.namespaces.number?_eq_some_iff.2 known]
  | blank id => rfl
  | simple label => rfl
  | tagged label known =>
    simp [TermDictionary.existingKey?, hd.languages.number?_eq_some_iff.2 known]
  | typed label known =>
    simp [TermDictionary.existingKey?, hd.datatypes.number?_eq_some_iff.2 known]

lemma Keyed.key_unique (h : d.Keyed t key) (h' : d.Keyed t found) (hd : d.Worded) : key = found :=
  Option.some.inj ((h.existingKey? hd).symm.trans (h'.existingKey? hd))

/-! ## From a key back to the term -/

omit [Text.Hasher] in
lemma resolve_eq_ok {v : Vocabulary} {number : UInt16} {text : String}
    (h : v.text? number = some text) : resolve v number = .ok text := by
  rw [resolve, h]

omit [Text.Hasher] in
lemma ofDatatype_iri (label : String) (datatype : Datatype) :
    Literal.ofDatatype label datatype.iri = .typed label datatype :=
  dif_neg datatype.ne_string

/-- **The key that is looked for stands for the term**, whether it is settled or not. -/
theorem termOf_of_existingKey? (hd : d.Worded) (h : d.existingKey? t = some key) :
    d.termOf key = .ok t := by
  match t with
  | .resource (.iri iri) =>
    obtain rfl := Option.some.inj h
    cases hsplit : iri.split? with
    | none => rfl
    | some parts =>
      obtain ⟨space, name⟩ := parts
      cases hnumber : d.namespaces.number? space with
      | none =>
        simp only [Option.bind_some, hnumber]
        rfl
      | some number =>
        have htext := resolve_eq_ok (hd.namespaces.number?_eq_some_iff.1 hnumber)
        simp only [Option.bind_some, hnumber, Option.map_some, Option.getD_some, termOf, htext,
          Except.map, Iri.append_of_split? hsplit]
  | .resource (.blank id) =>
    obtain rfl := Option.some.inj h
    rfl
  | .literal (.simple label) =>
    obtain rfl := Option.some.inj h
    rfl
  | .literal (.tagged label language) =>
    obtain ⟨number, hnumber, rfl⟩ := Option.map_eq_some_iff.1 h
    have htext := resolve_eq_ok (hd.languages.number?_eq_some_iff.1 hnumber)
    simp only [termOf, htext, Except.map]
  | .literal (.typed label datatype) =>
    obtain ⟨number, hnumber, rfl⟩ := Option.map_eq_some_iff.1 h
    have htext := resolve_eq_ok (hd.datatypes.number?_eq_some_iff.1 hnumber)
    simp only [termOf, htext, Except.map]
    exact congrArg (fun l => Except.ok (Term.literal l)) (ofDatatype_iri label datatype)

lemma Keyed.termOf (h : d.Keyed t key) (hd : d.Worded) : d.termOf key = .ok t :=
  termOf_of_existingKey? hd (h.existingKey? hd)

lemma Keyed.term_unique (h : d.Keyed t key) (h' : d.Keyed other key) (hd : d.Worded) :
    t = other :=
  Except.ok.inj ((h.termOf hd).symm.trans (h'.termOf hd))

/-! ## From a term to its key -/

/-- A settled key is the one that encoding uses, and nothing is learned. -/
theorem Keyed.internKey (h : d.Keyed t key) (hd : d.Worded) : d.internKey t = (.ok key, d) := by
  cases h with
  | whole split => simp [TermDictionary.internKey, split]
  | crowdedOut split full unknown =>
    simp [TermDictionary.internKey, split, hd.namespaces.intern_of_full full unknown]
  | namespaced split known =>
    simp [TermDictionary.internKey, split, hd.namespaces.intern_of_text? known]
  | blank id => rfl
  | simple label => rfl
  | tagged label known =>
    simp [TermDictionary.internKey, hd.languages.intern_of_text? known, numbered, Except.map]
  | typed label known =>
    simp [TermDictionary.internKey, hd.datatypes.intern_of_text? known, numbered, Except.map]

/-- Only vocabularies have changed. -/
def OnlyWords (d e : TermDictionary) : Prop :=
  ∃ namespaces languages datatypes, e = { d with namespaces, languages, datatypes }

/-- A key that needs no vocabulary is settled as it is. -/
lemma Worded.settled (hd : d.Worded) (h : d.Keyed t key) :
    d.Worded ∧ d.Learns d ∧ d.OnlyWords d ∧
      ∀ other, (.ok key : Except DictionaryError Key) = .ok other → d.Keyed t other := by
  refine ⟨hd, .refl d, ⟨_, _, _, rfl⟩, ?_⟩
  intro other hother
  obtain rfl := Except.ok.inj hother
  exact h

/-- **Encoding settles the key**, if it gets as far as that. -/
theorem internKey_spec (hd : d.Worded) {answer : Except DictionaryError Key}
    (heq : d.internKey t = (answer, e)) :
    e.Worded ∧ d.Learns e ∧ d.OnlyWords e ∧ ∀ key, answer = .ok key → e.Keyed t key := by
  match t with
  | .resource (.iri iri) =>
    simp only [internKey] at heq
    cases hsplit : iri.split? with
    | none =>
      rw [hsplit] at heq
      obtain ⟨rfl, rfl⟩ := Prod.mk.inj heq
      exact hd.settled (.whole hsplit)
    | some parts =>
      obtain ⟨space, name⟩ := parts
      cases hintern : d.namespaces.intern space with
      | mk number? namespaces =>
        obtain ⟨hsound, hgrows, hnumber, hfull⟩ := hd.namespaces.intern hintern
        simp only [hsplit, hintern] at heq
        obtain ⟨rfl, rfl⟩ := Prod.mk.inj heq
        refine ⟨⟨hsound, hd.languages, hd.datatypes⟩, ⟨hgrows, .refl _, .refl _⟩,
          ⟨_, _, _, rfl⟩, ?_⟩
        intro key hkey
        obtain rfl := Except.ok.inj hkey
        cases number? with
        | none => exact .crowdedOut hsplit (hfull rfl).1 (hfull rfl).2
        | some number => exact .namespaced hsplit (hnumber number rfl)
  | .resource (.blank id) =>
    obtain ⟨rfl, rfl⟩ := Prod.mk.inj heq
    exact hd.settled (.blank id)
  | .literal (.simple label) =>
    obtain ⟨rfl, rfl⟩ := Prod.mk.inj heq
    exact hd.settled (.simple label)
  | .literal (.tagged label language) =>
    cases hintern : d.languages.intern language with
    | mk number? languages =>
      obtain ⟨hsound, hgrows, hnumber, -⟩ := hd.languages.intern hintern
      simp only [internKey, hintern] at heq
      obtain ⟨rfl, rfl⟩ := Prod.mk.inj heq
      refine ⟨⟨hd.namespaces, hsound, hd.datatypes⟩, ⟨.refl _, hgrows, .refl _⟩, ⟨_, _, _, rfl⟩, ?_⟩
      intro key hkey
      cases number? with
      | none => cases hkey
      | some number =>
        obtain rfl := Except.ok.inj hkey
        exact .tagged label (hnumber number rfl)
  | .literal (.typed label datatype) =>
    cases hintern : d.datatypes.intern datatype.iri.text with
    | mk number? datatypes =>
      obtain ⟨hsound, hgrows, hnumber, -⟩ := hd.datatypes.intern hintern
      simp only [internKey, hintern] at heq
      obtain ⟨rfl, rfl⟩ := Prod.mk.inj heq
      refine ⟨⟨hd.namespaces, hd.languages, hsound⟩, ⟨.refl _, .refl _, hgrows⟩, ⟨_, _, _, rfl⟩, ?_⟩
      intro key hkey
      cases number? with
      | none => cases hkey
      | some number =>
        obtain rfl := Except.ok.inj hkey
        exact .typed label (hnumber number rfl)

end QuadBase.Dictionary.TermDictionary
