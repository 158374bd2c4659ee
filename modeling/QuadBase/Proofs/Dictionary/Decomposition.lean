import QuadBase.Proofs.Dictionary.Interning
import QuadBase.Proofs.Dictionary.Permanence

/-!
# Keys are for good

How a term is taken apart depends on the words that are known when it is encoded: an IRI is kept
whole if its namespace is new and the namespaces are full.  But once a term has been encoded, or has
been refused for lack of room after it was taken apart, nothing changes its key.

* `Passes` — the dictionaries that a dictionary passes through, also in the middle of a request.
* `Decomposed` — what there is to say about a term and its key.
* `Sound.keyed_encode` — encoding settles the key, even if the term is packed and needs none.
* `decomposed_permanent` — **the key of a term is its key for good**, and no other term's.
-/

namespace QuadBase.Dictionary

open QuadBase.Rdf

/-! ## First words -/

namespace Vocabulary

variable [Text.Hasher]

/-- The words that a vocabulary learns one after the other. -/
lemma ofList_lists (texts : List String) : (ofList texts).Lists (texts.foldl learned []) := by
  suffices hall : ∀ {v : Vocabulary} {words : List String}, v.Lists words →
      (texts.foldl (fun v text => (v.intern text).2) v).Lists (texts.foldl learned words) from
    hall ⟨empty_sound, rfl⟩
  intro v words h
  induction texts generalizing v words with
  | nil => exact h
  | cons text texts ih => exact ih (h.handle .tryInsert text)

end Vocabulary

namespace TermDictionary

/-- The initial datatypes are different words. -/
lemma learned_initialDatatypes :
    initialDatatypes.foldl Vocabulary.learned [] = initialDatatypes := by
  decide +kernel

variable [Text.Hasher] {d e f : TermDictionary} {t : Term} {key : Key}

/-- **Every dictionary knows the initial datatypes.** -/
lemma text?_create (config : Config) {text : String} (h : text ∈ initialDatatypes) :
    ∃ number, (create config).datatypes.text? number = some text := by
  obtain ⟨hsound, htexts⟩ := Vocabulary.ofList_lists initialDatatypes
  rw [learned_initialDatatypes] at htexts
  simp only [create, initialDatatypeVocabulary]
  refine ⟨_, hsound.text?_numberIn ?_⟩
  rw [htexts]
  exact h

omit [Text.Hasher] in
/-- The datatype of a packed literal is an initial one. -/
lemma mem_initialDatatypes_of_embed? {l : Literal} {code : Code}
    (h : embed? (.literal l) = some code) : l.datatype.text ∈ initialDatatypes := by
  rw [embed?] at h
  split at h
  next => cases h
  next =>
    obtain ⟨⟨number, family⟩, hnumber, -⟩ := Option.bind_eq_some_iff.1 h
    obtain ⟨-, -, datatype, hdatatype, hiri, -⟩ := Code.packedDatatype?_of_packedNumber? hnumber
    rw [Code.packedDatatype?] at hdatatype
    split at hdatatype
    next => cases hdatatype
    next =>
      rw [← hiri]
      exact List.mem_append_left _ (List.mem_map_of_mem (List.mem_of_getElem? hdatatype))

/-- Packed terms have settled keys from the start. -/
lemma keyed_of_embed? {config : Config} (hlearns : (create config).Learns d) {code : Code}
    (h : embed? t = some code) : ∃ key, d.Keyed t key := by
  cases t with
  | resource r => cases h
  | literal l =>
    have hmem := mem_initialDatatypes_of_embed? h
    cases l with
    | simple label => exact ⟨_, .simple label⟩
    | tagged label language => cases h
    | typed label datatype =>
      obtain ⟨number, hnumber⟩ := text?_create config hmem
      exact ⟨_, .typed label (hlearns.datatypes.text? hnumber)⟩

/-! ## What is passed through -/

/-- The dictionaries that are passed through, also in the middle of requests: all that a request
does is to encode terms, look terms up, decode codes and fork. -/
inductive Passes (d : TermDictionary) : TermDictionary → Prop where
  | start : Passes d d
  | encode {e : TermDictionary} (h : Passes d e) (t : Term) : Passes d (e.encode t).dictionary
  | tryEncode {e : TermDictionary} (h : Passes d e) (t : Term) :
      Passes d (e.tryEncode t).dictionary
  | decode {e : TermDictionary} (h : Passes d e) (code : Code) : Passes d (e.decode code).dictionary
  | fork {e : TermDictionary} (h : Passes d e) : Passes d e.fork

namespace Passes

lemma trans (h : d.Passes e) (h' : e.Passes f) : d.Passes f := by
  induction h' with
  | start => exact h
  | encode _ t ih => exact ih.encode t
  | tryEncode _ t ih => exact ih.tryEncode t
  | decode _ code ih => exact ih.decode code
  | fork _ ih => exact ih.fork

/-- What is known at the start stays known. -/
theorem follows (h : d.Passes e) (hd : d.Sound) : d.Follows e := by
  induction h with
  | start => exact hd.follows
  | encode _ t ih => exact ih.trans (ih.sound.encode t).1
  | tryEncode _ t ih => exact ih.trans (ih.sound.tryEncode t).1
  | decode _ code ih => exact ih.trans (ih.sound.decode code)
  | fork _ ih => exact ih.trans ih.sound.follows_fork

lemma andThen {α β : Type} {o : Outcome (Except DictionaryError α)}
    {next : α → TermDictionary → Outcome (Except DictionaryError β)} (h : d.Passes o.dictionary)
    (hnext : ∀ (a : α) (e : TermDictionary), e.Passes (next a e).dictionary) :
    d.Passes (o.andThen next).dictionary := by
  obtain ⟨answer, calls, e⟩ := o
  cases answer with
  | error error => exact h
  | ok a => exact h.trans (hnext a e)

end Passes

lemma passes_encodeGraph (d : TermDictionary) (graph : GraphName) :
    d.Passes (d.encodeGraph graph).dictionary := by
  cases graph with
  | defaultGraph => exact .start
  | named r => exact .encode .start (.resource r)

lemma passes_decodeGraph (d : TermDictionary) (code : Code) :
    d.Passes (d.decodeGraph code).dictionary := by
  rw [decodeGraph]
  split
  · exact .start
  · exact ((Passes.decode .start code).andThen fun _ _ => .start).andThen fun _ _ => .start

/-- **All states between requests are passed through.** -/
theorem passes_serve (d : TermDictionary) (request : Request) : d.Passes (d.serve request) := by
  cases request with
  | encode t => exact .encode .start t
  | tryEncode t => exact .tryEncode .start t
  | decode code => exact .decode .start code
  | encodeGraph graph => exact d.passes_encodeGraph graph
  | decodeGraph code => exact d.passes_decodeGraph code
  | encodeQuad quad =>
    refine (Passes.encode .start _).andThen ?_
    intro _ d
    refine (Passes.encode .start _).andThen ?_
    intro _ d
    refine (Passes.encode .start _).andThen ?_
    intro _ d
    exact (d.passes_encodeGraph _).andThen fun _ _ => .start
  | decodeQuad codes =>
    refine ((Passes.decode .start _).andThen fun _ _ => .start).andThen ?_
    intro _ d
    refine ((Passes.decode .start _).andThen fun _ _ => .start).andThen ?_
    intro _ d
    refine (Passes.decode .start _).andThen ?_
    intro _ d
    exact (d.passes_decodeGraph _).andThen fun _ _ => .start
  | isLiteral | isIri | isBlankNode | isResource => exact .start
  | fork => exact .fork .start

/-- Reachable dictionaries are passed through. -/
lemma passes_serveAll (d : TermDictionary) (requests : List Request) :
    d.Passes (d.serveAll requests) := by
  induction requests generalizing d with
  | nil => exact .start
  | cons request requests ih => exact (d.passes_serve request).trans (ih (d.serve request))

/-! ## A term and its key -/

/-- The term and the key belong together, as the dictionary is now. -/
structure Decomposed (d : TermDictionary) (t : Term) (key : Key) : Prop where
  /-- Encoding takes the term apart like this, and learns nothing. -/
  internKey : d.internKey t = (.ok key, d)
  /-- So does looking the term up. -/
  existingKey? : d.existingKey? t = some key
  /-- The key is put together to the term. -/
  termOf : d.termOf key = .ok t
  /-- No other term would be encoded under the key. -/
  only_internKey : ∀ {other}, (d.internKey other).1 = .ok key → other = t
  /-- No other term is looked for under it. -/
  only_existingKey? : ∀ {other}, d.existingKey? other = some key → other = t

lemma Keyed.decomposed (h : d.Keyed t key) (hd : d.Worded) : d.Decomposed t key where
  internKey := h.internKey hd
  existingKey? := h.existingKey? hd
  termOf := h.termOf hd
  only_internKey := by
    intro other hother
    obtain ⟨hworded, hlearns, -, hkeyed⟩ := internKey_spec (t := other) hd rfl
    exact (hkeyed key hother).term_unique (h.mono hlearns hworded) hworded
  only_existingKey? := by
    intro other hother
    exact Except.ok.inj ((termOf_of_existingKey? hd hother).symm.trans (h.termOf hd))

/-- **Encoding settles the key**, even if the term is then refused. -/
theorem Sound.keyed_encode {config : Config} (hd : d.Sound) (hlearns : (create config).Learns d)
    (hkey : (d.internKey t).1 = .ok key) : (d.encode t).dictionary.Keyed t key := by
  have hfollows := (hd.encode t).1
  -- a key that was settled before is the same
  have hold : ∀ {own}, d.Keyed t own → (d.encode t).dictionary.Keyed t key := by
    intro own hkeyed
    rw [hkeyed.internKey hd.worded] at hkey
    obtain rfl := Except.ok.inj hkey
    exact hkeyed.mono hfollows.learns hfollows.sound.worded
  cases hembed : embed? t with
  | some code =>
    obtain ⟨own, hkeyed⟩ := keyed_of_embed? hlearns hembed
    exact hold hkeyed
  | none =>
    cases hcached : d.cachedCode? t with
    | some code =>
      obtain ⟨-, own, hkeyed, -⟩ := hd.coded_of_cachedCode? hcached
      exact hold hkeyed
    | none =>
      have hworded := hfollows.sound.worded
      cases hintern : d.internKey t with
      | mk answer e =>
        obtain ⟨-, -, -, hkeyed⟩ := internKey_spec hd.worded hintern
        rw [hintern] at hkey
        obtain rfl : answer = .ok key := hkey
        refine (hkeyed key rfl).mono ?_ hworded
        simp only [TermDictionary.encode, hembed, hcached, hintern]
        cases hinsert : e.insertKey key with
        | mk answer f =>
          obtain ⟨-, rfl⟩ := Prod.mk.inj hinsert
          cases answer <;> exact ⟨.refl _, .refl _, .refl _⟩

/-- **The key of a term is its key for good.**  When a reachable dictionary comes to encode a term,
be it the first time or not, be it in the middle of a quad, and be the namespaces full or not, let
`key` be what the term is taken apart into.  Whatever happens then, the term is taken apart into
this key whenever it is encoded or looked for, the key is put together to the term, and every other
term has another key. -/
theorem decomposed_permanent (config : Config) {e f : TermDictionary} {t : Term} {key : Key}
    (he : (create config).Passes e) (hkey : (e.internKey t).1 = .ok key)
    (hf : (e.encode t).dictionary.Passes f) : f.Decomposed t key := by
  have hbefore := he.follows (create_sound config)
  have hkeyed := hbefore.sound.keyed_encode hbefore.learns hkey
  have hafter := hf.follows (hbefore.sound.encode t).1.sound
  exact (hkeyed.mono hafter.learns hafter.sound.worded).decomposed hafter.sound.worded

end TermDictionary

/-- Two names in one namespace, a code that is refused, and a fork. -/
theorem TermDictionary.decomposed_permanent_siblings :
    let e := (create {}).serveAll [.encode (.blank "x"), .decode ⟨5⟩]
    let f := (e.encode (.iri ⟨"urn:a"⟩)).dictionary.serveAll [.encode (.iri ⟨"urn:b"⟩), .fork]
    (e.internKey (.iri ⟨"urn:a"⟩)).1 = .ok ⟨.namespacedIri, 1, "a"⟩ ∧
      f.Decomposed (.iri ⟨"urn:a"⟩) ⟨.namespacedIri, 1, "a"⟩ := by
  intro e f
  have hkey : (e.internKey (.iri ⟨"urn:a"⟩)).1 = .ok ⟨.namespacedIri, 1, "a"⟩ := by
    decide +kernel
  exact ⟨hkey, decomposed_permanent {} (passes_serveAll _ _) hkey (passes_serveAll _ _)⟩

end QuadBase.Dictionary
