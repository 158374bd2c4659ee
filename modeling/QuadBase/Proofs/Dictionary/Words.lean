import QuadBase.Proofs.Dictionary.Foreign

/-!
# What encoding teaches the vocabularies

Taking a term apart needs a word of at most one vocabulary: the namespace of an IRI, the language or
the datatype of a literal.  `wordOf?` is this word.  Encoding a term lets its vocabulary intern the
word or does not touch the vocabularies at all, whether it succeeds or fails.

* `internKey_dictionary` — taking a term apart interns its word and changes nothing else.
* `learns_encode` — encoding does so, or leaves the vocabularies alone.
* `Sound.vocabulary_serveAll` — what interning keeps true of a vocabulary holds after every run.
-/

namespace QuadBase.Dictionary

open QuadBase.Rdf

/-- The word that a term is taken apart with, and the vocabulary that it belongs to. -/
def wordOf? : Term → Option (VocabularyName × String)
  | .resource (.iri iri) => iri.split?.map fun (space, _) => (.namespaces, space)
  | .resource (.blank _) => none
  | .literal (.simple _) => none
  | .literal (.tagged _ language) => some (.languages, language)
  | .literal (.typed _ datatype) => some (.datatypes, datatype.iri.text)

namespace TermDictionary

def vocabulary (d : TermDictionary) : VocabularyName → Vocabulary
  | .namespaces => d.namespaces
  | .languages => d.languages
  | .datatypes => d.datatypes

variable [Text.Hasher] {d e : TermDictionary} {t : Term}

/-- Lets a vocabulary intern a word. -/
def learn (d : TermDictionary) : VocabularyName × String → TermDictionary
  | (.namespaces, text) => { d with namespaces := (d.namespaces.intern text).2 }
  | (.languages, text) => { d with languages := (d.languages.intern text).2 }
  | (.datatypes, text) => { d with datatypes := (d.datatypes.intern text).2 }

/-- The dictionary once the word of a term has been interned. -/
def learnFor (d : TermDictionary) (t : Term) : TermDictionary :=
  (wordOf? t).elim d d.learn

/-- Only the vocabulary of the word changes. -/
lemma vocabulary_learn (d : TermDictionary) (name other : VocabularyName) (text : String) :
    (d.learn (name, text)).vocabulary other =
      if other = name then ((d.vocabulary name).intern text).2 else d.vocabulary other := by
  cases name <;> cases other <;> rfl

/-- **Taking a term apart interns its word.** -/
lemma internKey_dictionary (d : TermDictionary) (t : Term) :
    (d.internKey t).2 = d.learnFor t := by
  match t with
  | .resource (.iri iri) =>
    rw [internKey, learnFor, wordOf?]
    cases iri.split? with
    | none => rfl
    | some parts => rfl
  | .resource (.blank _) => rfl
  | .literal (.simple _) => rfl
  | .literal (.tagged _ _) => rfl
  | .literal (.typed _ _) => rfl

omit [Text.Hasher] in
lemma OnlyCaches.vocabulary (h : d.OnlyCaches e) (name : VocabularyName) :
    e.vocabulary name = d.vocabulary name := by
  obtain ⟨_, _, rfl⟩ := h
  cases name <;> rfl

lemma vocabulary_insertKey (d : TermDictionary) (key : Key) (name : VocabularyName) :
    (d.insertKey key).2.vocabulary name = d.vocabulary name := by
  cases name <;> rfl

/-- **Encoding a term interns its word, or leaves the vocabularies alone.** -/
theorem learns_encode (d : TermDictionary) (t : Term) :
    (∀ name, (d.encode t).dictionary.vocabulary name = d.vocabulary name) ∨
      ∀ name, (d.encode t).dictionary.vocabulary name = (d.learnFor t).vocabulary name := by
  rw [encode, ← internKey_dictionary]
  cases embed? t with
  | some packed => exact Or.inl fun _ => rfl
  | none =>
    cases d.cachedCode? t with
    | some cached => exact Or.inl fun _ => rfl
    | none =>
      right
      intro name
      cases d.internKey t with
      | mk answer learned =>
        cases answer with
        | error error => rfl
        | ok key =>
          have hkept := vocabulary_insertKey learned key name
          dsimp only
          cases hinsert : learned.insertKey key with
          | mk answer inserted =>
            rw [hinsert] at hkept
            cases answer with
            | error error => exact hkept
            | ok code => exact ((onlyCaches_rememberCode inserted t code).vocabulary name).trans hkept

lemma Worded.vocabulary (hd : d.Worded) (name : VocabularyName) : (d.vocabulary name).Sound := by
  cases name with
  | namespaces => exact hd.namespaces
  | languages => exact hd.languages
  | datatypes => exact hd.datatypes

/-- **What interning keeps true of a vocabulary holds after every run.** -/
theorem Sound.vocabulary_serveAll {P : Vocabulary → Prop}
    (hintern : ∀ {v : Vocabulary}, v.Sound → P v → ∀ text, P (v.intern text).2) (hd : d.Sound)
    (h : ∀ name, P (d.vocabulary name)) (requests : List Request) (name : VocabularyName) :
    P ((d.serveAll requests).vocabulary name) := by
  refine hd.serveAll_run (P := fun e _ => ∀ name, P (e.vocabulary name)) ?_ ?_ [] h requests name
  · intro e f _ _ hsame hkept other
    exact hsame.vocabulary other ▸ hkept other
  · intro e _ he hkept t other
    rcases e.learns_encode t with hsame | hlearned
    · exact hsame other ▸ hkept other
    · rw [hlearned, learnFor]
      cases wordOf? t with
      | none => exact hkept other
      | some word =>
        obtain ⟨own, text⟩ := word
        rw [Option.elim_some, vocabulary_learn]
        split
        · exact hintern (he.worded.vocabulary own) (hkept own) text
        · exact hkept other

end TermDictionary

end QuadBase.Dictionary
