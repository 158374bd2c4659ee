import QuadBase.Proofs.Dictionary.Permanence

/-!
# Codes of other origin

A code may come from anywhere: from another dictionary, from a damaged file, or from somebody who
made it lead into the middle of a text that looks like a record.  Only encoding issues codes, and
`issuesAll` lists what a history of requests has issued.  A request for a quad that fails halfway has
issued the codes of the terms before the failure.

* `Sound.serveAll_run` — what encoding a term preserves, whatever the caches do, holds after every
  run.
* `Sound.coded_serveAll` — requests make known what they issue, and nothing else.
* `Sound.decode_cases` — a code is decoded if it is known, and refused as unknown otherwise.
* `decode_issued_or_unknown` — **a code that is not embedded is decoded exactly if it has been
  issued**, for any history.
-/

namespace QuadBase.Dictionary

open QuadBase.Rdf

/-- The terms in a graph name. -/
def graphTerms : GraphName → List Term
  | .defaultGraph => []
  | .named r => [.resource r]

/-- The terms that a request encodes, in this order. -/
def Request.encoded : Request → List Term
  | .encode t => [t]
  | .encodeGraph graph => graphTerms graph
  | .encodeQuad quad =>
    .resource quad.subject :: .iri quad.predicate :: quad.object :: graphTerms quad.graph
  | _ => []

namespace Records

variable [Text.Hasher] {r : Records} {code : Code}

/-- Reading fails in one way only. -/
lemma read_eq_error {error : DictionaryError} (h : r.read code = .error error) :
    error = .unknownCode code := by
  simp only [read] at h
  split at h
  · exact (Except.error.inj h).symm
  · split at h
    · cases h
    · exact (Except.error.inj h).symm

end Records

namespace TermDictionary

variable [Text.Hasher] {d e f : TermDictionary} {t other : Term} {code : Code} {key : Key}
  {issued : List (Term × Code)}

/-- The dictionary after encoding some terms.  The first failure ends it. -/
def encodeAll (d : TermDictionary) : List Term → TermDictionary
  | [] => d
  | t :: ts =>
    match (d.encode t).answer with
    | .ok _ => (d.encode t).dictionary.encodeAll ts
    | .error _ => (d.encode t).dictionary

/-- The codes that encoding some terms issues, until the first failure. -/
def issues (d : TermDictionary) : List Term → List (Term × Code)
  | [] => []
  | t :: ts =>
    match (d.encode t).answer with
    | .ok code => (t, code) :: (d.encode t).dictionary.issues ts
    | .error _ => []

/-- The codes that some requests issue.  From a fork on, these are the requests to the fork. -/
def issuesAll (d : TermDictionary) : List Request → List (Term × Code)
  | [] => []
  | request :: requests => d.issues request.encoded ++ (d.serve request).issuesAll requests

/-! ## What is encoded -/

lemma dictionary_encode_andThen {α : Type} {ts : List Term}
    {next : Code → TermDictionary → Outcome (Except DictionaryError α)}
    (h : ∀ code e, (next code e).dictionary = e.encodeAll ts) :
    ((d.encode t).andThen next).dictionary = d.encodeAll (t :: ts) := by
  rw [encodeAll]
  obtain ⟨answer, calls, e⟩ := d.encode t
  cases answer with
  | error error => rfl
  | ok code => exact h code e

lemma dictionary_encode (d : TermDictionary) (t : Term) :
    (d.encode t).dictionary = d.encodeAll [t] := by
  rw [encodeAll]
  cases (d.encode t).answer <;> rfl

lemma dictionary_encodeGraph (d : TermDictionary) (graph : GraphName) :
    (d.encodeGraph graph).dictionary = d.encodeAll (graphTerms graph) := by
  cases graph with
  | defaultGraph => rfl
  | named r => exact d.dictionary_encode (.resource r)

/-- A quad is encoded term by term. -/
lemma dictionary_encodeQuad (d : TermDictionary) (quad : Quad) :
    (d.encodeQuad quad).dictionary = d.encodeAll (Request.encodeQuad quad).encoded := by
  refine dictionary_encode_andThen ?_
  intro _ d
  refine dictionary_encode_andThen ?_
  intro _ d
  refine dictionary_encode_andThen ?_
  intro _ d
  cases quad.graph with
  | defaultGraph => rfl
  | named r =>
    change ((d.encode (.resource r)).andThen _).dictionary = d.encodeAll [.resource r]
    refine dictionary_encode_andThen ?_
    intro _ d
    rfl

/-! ## What only touches the caches -/

/-- Only caches have changed. -/
def OnlyCaches (d e : TermDictionary) : Prop :=
  ∃ encodeCache decodeCache, e = { d with encodeCache, decodeCache }

omit [Text.Hasher] in
lemma OnlyCaches.refl (d : TermDictionary) : d.OnlyCaches d :=
  ⟨_, _, rfl⟩

omit [Text.Hasher] in
lemma OnlyCaches.trans (h : d.OnlyCaches e) (h' : e.OnlyCaches f) : d.OnlyCaches f := by
  obtain ⟨_, _, rfl⟩ := h
  obtain ⟨_, _, rfl⟩ := h'
  exact ⟨_, _, rfl⟩

omit [Text.Hasher] in
lemma OnlyCaches.records (h : d.OnlyCaches e) : e.records = d.records := by
  obtain ⟨_, _, rfl⟩ := h
  rfl

omit [Text.Hasher] in
lemma OnlyCaches.config (h : d.OnlyCaches e) : e.config = d.config := by
  obtain ⟨_, _, rfl⟩ := h
  rfl

/-- What is known does not depend on the caches. -/
lemma OnlyCaches.coded_iff (h : d.OnlyCaches e) (hd : d.Sound) :
    e.Coded t code ↔ d.Coded t code := by
  obtain ⟨encodeCache, decodeCache, rfl⟩ := h
  have hworded : Worded { d with encodeCache, decodeCache } :=
    ⟨hd.worded.namespaces, hd.worded.languages, hd.worded.datatypes⟩
  constructor
  · exact fun hcoded => hcoded.mono ⟨.refl _, .refl _, .refl _⟩ hd.worded fun h => h
  · exact fun hcoded => hcoded.mono ⟨.refl _, .refl _, .refl _⟩ hworded fun h => h

lemma OnlyCaches.represents_iff (h : d.OnlyCaches e) (hd : d.Sound) :
    e.Represents t code ↔ d.Represents t code :=
  or_congr Iff.rfl (h.coded_iff hd)

omit [Text.Hasher] in
lemma OnlyCaches.andThen {α β : Type} {o : Outcome (Except DictionaryError α)}
    {next : α → TermDictionary → Outcome (Except DictionaryError β)}
    (h : d.OnlyCaches o.dictionary)
    (hnext : ∀ (a : α) (e : TermDictionary), e.OnlyCaches (next a e).dictionary) :
    d.OnlyCaches (o.andThen next).dictionary := by
  obtain ⟨answer, calls, e⟩ := o
  cases answer with
  | error error => exact h
  | ok a => exact h.trans (hnext a e)

lemma onlyCaches_rememberCode (d : TermDictionary) (t : Term) (code : Code) :
    d.OnlyCaches (d.rememberCode t code) :=
  ⟨_, _, rfl⟩

lemma onlyCaches_tryEncode (d : TermDictionary) (t : Term) :
    d.OnlyCaches (d.tryEncode t).dictionary := by
  rw [tryEncode]
  cases embed? t with
  | some packed => exact .refl d
  | none =>
    cases d.cachedCode? t with
    | some cached => exact .refl d
    | none =>
      cases (d.existingKey? t).bind d.records.find? with
      | none => exact .refl d
      | some code => exact d.onlyCaches_rememberCode t code

lemma onlyCaches_decode (d : TermDictionary) (code : Code) :
    d.OnlyCaches (d.decode code).dictionary := by
  rw [decode]
  split
  · cases unembed? code <;> exact .refl d
  · split
    · exact .refl d
    · cases d.cachedTerm? code with
      | some cached => exact .refl d
      | none =>
        cases (d.records.read code).bind d.termOf with
        | error error => exact .refl d
        | ok t => exact ⟨_, _, rfl⟩

lemma onlyCaches_decodeResource (d : TermDictionary) (position : Position) (code : Code) :
    d.OnlyCaches (d.decodeResource position code).dictionary :=
  (d.onlyCaches_decode code).andThen fun _ e => .refl e

lemma onlyCaches_decodeIri (d : TermDictionary) (position : Position) (code : Code) :
    d.OnlyCaches (d.decodeIri position code).dictionary :=
  (d.onlyCaches_decode code).andThen fun _ e => .refl e

lemma onlyCaches_decodeGraph (d : TermDictionary) (code : Code) :
    d.OnlyCaches (d.decodeGraph code).dictionary := by
  rw [decodeGraph]
  split
  · exact .refl d
  · exact (d.onlyCaches_decodeResource .graph code).andThen fun _ e => .refl e

lemma onlyCaches_decodeQuad (d : TermDictionary) (codes : CodedQuad) :
    d.OnlyCaches (d.decodeQuad codes).dictionary := by
  refine (d.onlyCaches_decodeResource _ _).andThen ?_
  intro _ d
  refine (d.onlyCaches_decodeIri _ _).andThen ?_
  intro _ d
  refine (d.onlyCaches_decode _).andThen ?_
  intro _ d
  exact (d.onlyCaches_decodeGraph _).andThen fun _ e => .refl e

omit [Text.Hasher] in
lemma onlyCaches_fork (d : TermDictionary) : d.OnlyCaches d.fork :=
  ⟨_, _, rfl⟩

/-! ## Runs -/

section Runs

variable {P : TermDictionary → List (Term × Code) → Prop}
  (hcaches : ∀ {d e : TermDictionary} {issued : List (Term × Code)},
    d.Sound → d.OnlyCaches e → P d issued → P e issued)
  (hencode : ∀ {d : TermDictionary} {issued : List (Term × Code)},
    d.Sound → P d issued → ∀ t, P (d.encode t).dictionary (issued ++ d.issues [t]))

include hencode in
lemma Sound.encodeAll_run (hd : d.Sound) (h : P d issued) (ts : List Term) :
    P (d.encodeAll ts) (issued ++ d.issues ts) := by
  induction ts generalizing d issued with
  | nil => simpa [encodeAll, issues] using h
  | cons t ts ih =>
    have hfirst := hencode hd h t
    rw [issues] at hfirst ⊢
    rw [encodeAll]
    cases hanswer : (d.encode t).answer with
    | error error => simpa only [hanswer] using hfirst
    | ok code =>
      simp only [hanswer, issues] at hfirst
      have hrest := ih (hd.encode t).1.sound hfirst
      rwa [List.append_assoc] at hrest

include hcaches hencode in
lemma Sound.serve_run (hd : d.Sound) (h : P d issued) (request : Request) :
    P (d.serve request) (issued ++ d.issues request.encoded) := by
  have hsame : ∀ {e}, d.OnlyCaches e → P e (issued ++ d.issues []) := by
    intro e hsame
    rw [issues, List.append_nil]
    exact hcaches hd hsame h
  cases request with
  | encode t =>
    rw [TermDictionary.serve, dictionary_encode]
    exact hd.encodeAll_run hencode h _
  | encodeGraph graph =>
    rw [TermDictionary.serve, dictionary_encodeGraph]
    exact hd.encodeAll_run hencode h _
  | encodeQuad quad =>
    rw [TermDictionary.serve, dictionary_encodeQuad]
    exact hd.encodeAll_run hencode h _
  | tryEncode t => exact hsame (d.onlyCaches_tryEncode t)
  | decode code => exact hsame (d.onlyCaches_decode code)
  | decodeGraph code => exact hsame (d.onlyCaches_decodeGraph code)
  | decodeQuad codes => exact hsame (d.onlyCaches_decodeQuad codes)
  | isLiteral | isIri | isBlankNode | isResource => exact hsame (.refl d)
  | fork => exact hsame d.onlyCaches_fork

include hcaches hencode in
/-- **What encoding a term preserves holds after every run**, if it does not depend on the caches.
It may speak of the codes that have been issued so far. -/
theorem Sound.serveAll_run (hd : d.Sound) (issued : List (Term × Code)) (h : P d issued)
    (requests : List Request) : P (d.serveAll requests) (issued ++ d.issuesAll requests) := by
  induction requests generalizing d issued with
  | nil => simpa [TermDictionary.serveAll, issuesAll] using h
  | cons request requests ih =>
    rw [issuesAll, ← List.append_assoc]
    exact ih (hd.serve request).sound _ (hd.serve_run (P := P) hcaches hencode h request)

end Runs

/-! ## What becomes known -/

/-- What is known later and was issued before, was known before. -/
lemma Follows.coded_of_issued (h : d.Follows e) (hd : d.Sound) (hcoded : e.Coded t code)
    (hissued : d.records.Issued code key) : d.Coded t code := by
  obtain ⟨own, hplain, hkeyed⟩ := hd.keyed hissued
  have hown : d.Coded own code := ⟨hplain, key, hkeyed, hissued⟩
  obtain rfl : t = own := h.sound.term_unique hcoded (hown.mono h.learns h.sound.worded h.issued)
  exact hown

lemma Follows.coded (h : d.Follows e) (hcoded : d.Coded t code) : e.Coded t code :=
  hcoded.mono h.learns h.sound.worded h.issued

/-- **Encoding a term leaves the records alone, or writes one more**, whose code is the answer. -/
theorem Sound.records_encode (hd : d.Sound) (t : Term) :
    (d.encode t).dictionary.records = d.records ∨
    ∃ key code, key.Normal ∧ (∀ other, ¬ d.records.Issued other key) ∧
      (d.encode t).answer = .ok code ∧
      d.records.insert key d.config.inlineLimit = (.ok code, (d.encode t).dictionary.records) := by
  rw [TermDictionary.encode]
  cases embed? t with
  | some packed => exact Or.inl rfl
  | none =>
    cases d.cachedCode? t with
    | some cached => exact Or.inl rfl
    | none =>
      cases hintern : d.internKey t with
      | mk answer e =>
        obtain ⟨-, -, ⟨namespaces, languages, datatypes, rfl⟩, hkeyed⟩ :=
          internKey_spec hd.worded hintern
        cases answer with
        | error error => exact Or.inl rfl
        | ok key =>
          have hnormal := (hkeyed key rfl).normal
          simp only [TermDictionary.insertKey]
          rcases hd.records.insert_cases hnormal d.config.inlineLimit with
            ⟨code, -, hinsert⟩ | ⟨error, -, hinsert⟩ | ⟨code, records, hnone, hinsert, -⟩
          · simp only [hinsert]
            exact Or.inl rfl
          · simp only [hinsert]
            exact Or.inl trivial
          · simp only [hinsert]
            exact Or.inr ⟨key, code, hnormal, hnone, rfl, hinsert⟩

/-- Encoding a term issues its code only. -/
lemma Sound.issued_encode (hd : d.Sound) (h : (d.encode t).dictionary.records.Issued code key) :
    d.records.Issued code key ∨ (d.encode t).answer = .ok code := by
  rcases hd.records_encode t with hsame | ⟨own, found, hnormal, hnone, hanswer, hinsert⟩
  · exact Or.inl (hsame ▸ h)
  · rcases hd.records.insert_cases hnormal d.config.inlineLimit with
      ⟨old, hold, -⟩ | ⟨error, -, hrefused⟩ | ⟨new, records, -, hwritten, -, hissued⟩
    · exact absurd hold (hnone old)
    · cases hrefused.symm.trans hinsert
    · obtain ⟨hcode, hrecords⟩ := Prod.mk.inj (hwritten.symm.trans hinsert)
      rw [← hrecords] at h
      rcases (hissued code key).1 h with ⟨rfl, -⟩ | hold
      · rw [hanswer, Except.ok.inj hcode]
        exact Or.inr rfl
      · exact Or.inl hold

/-- **Encoding a term makes known its code**, and nothing else. -/
theorem Sound.coded_encode (hd : d.Sound) (hcode : code.isEmbedded = false) :
    (d.encode t).dictionary.Coded other code ↔
      d.Coded other code ∨ (other = t ∧ (d.encode t).answer = .ok code) := by
  obtain ⟨hfollows, hanswer⟩ := hd.encode t
  have hown : (d.encode t).answer = .ok code → (d.encode t).dictionary.Coded t code := by
    intro hok
    refine (hanswer code hok).resolve_left fun hembed => ?_
    rw [(unembed?_of_embed? hembed).1] at hcode
    cases hcode
  constructor
  · intro hcoded
    obtain ⟨-, key, -, hissued⟩ := id hcoded
    rcases hd.issued_encode hissued with hold | hok
    · exact Or.inl (hfollows.coded_of_issued hd hcoded hold)
    · exact Or.inr ⟨hfollows.sound.term_unique hcoded (hown hok), hok⟩
  · rintro (hold | ⟨rfl, hok⟩)
    · exact hfollows.coded hold
    · exact hown hok

lemma mem_issues_singleton :
    (other, code) ∈ d.issues [t] ↔ other = t ∧ (d.encode t).answer = .ok code := by
  rw [issues]
  cases (d.encode t).answer with
  | error error => simp
  | ok found => simp [issues, eq_comm]

/-- **What is known after some requests was known before, or they have issued it.** -/
theorem Sound.coded_serveAll (hd : d.Sound) (hcode : code.isEmbedded = false)
    (requests : List Request) : (d.serveAll requests).Coded t code ↔
      d.Coded t code ∨ (t, code) ∈ d.issuesAll requests := by
  refine hd.serveAll_run
    (P := fun e issued => e.Coded t code ↔ d.Coded t code ∨ (t, code) ∈ issued) ?_ ?_ []
    (or_iff_left List.not_mem_nil).symm requests
  · intro e f issued he hsame hknown
    exact (hsame.coded_iff he).trans hknown
  · intro e issued he hknown own
    rw [he.coded_encode hcode, hknown, List.mem_append, mem_issues_singleton, or_assoc]

/-! ## What is decoded -/

lemma answer_decode_of_embedded (hcode : code.isEmbedded = true) :
    (d.decode code).answer = (unembed? code).elim (.error (.unknownCode code)) .ok := by
  rw [TermDictionary.decode, if_pos hcode]
  cases unembed? code <;> rfl

/-- **A code that is not embedded is decoded if it is known, and refused as unknown otherwise.** -/
theorem Sound.decode_cases (hd : d.Sound) (hcode : code.isEmbedded = false) :
    (∃ t, d.Coded t code ∧ (d.decode code).answer = .ok t) ∨
      ((∀ t, ¬ d.Coded t code) ∧ (d.decode code).answer = .error (.unknownCode code)) := by
  by_cases hknown : ∃ t, d.Coded t code
  · obtain ⟨t, hcoded⟩ := hknown
    exact Or.inl ⟨t, hcoded, Represents.decode (Or.inr hcoded) hd⟩
  · rw [not_exists] at hknown
    refine Or.inr ⟨hknown, ?_⟩
    rw [TermDictionary.decode, hcode, if_neg Bool.false_ne_true]
    split
    · rfl
    · cases hcached : d.cachedTerm? code with
      | some t => exact absurd (hd.coded_of_cachedTerm? hcached) (hknown t)
      | none =>
        cases hread : (d.records.read code).bind d.termOf with
        | ok t => exact absurd (hd.coded_of_read hread) (hknown t)
        | error error =>
          cases hkey : d.records.read code with
          | error cause =>
            rw [hkey] at hread
            obtain rfl := Except.error.inj hread
            rw [Records.read_eq_error hkey]
          | ok key =>
            have hissued := hd.records.read_eq_ok_iff_issued.1 hkey
            obtain ⟨t, hplain, hkeyed⟩ := hd.keyed hissued
            exact absurd ⟨hplain, key, hkeyed, hissued⟩ (hknown t)

lemma not_coded_create (config : Config) : ¬ (create config).Coded t code := by
  rintro ⟨-, key, -, hissued⟩
  exact Records.not_issued_create config.tableCapacity config.primaryLimit hissued

/-- **A code that is not embedded is decoded exactly if it has been issued.**  Whatever a dictionary
has been asked for, and wherever the code leads, it gives back the term that it was issued for, or
is refused as unknown; and no range that is asked for leads out of the arenas. -/
theorem decode_issued_or_unknown (config : Config) (requests : List Request) {code : Code}
    (h : code.isEmbedded = false) :
    let d := (create config).serveAll requests
    let issued := (create config).issuesAll requests
    ((∃ t, (t, code) ∈ issued ∧ (d.decode code).answer = .ok t) ∨
      ((∀ t, (t, code) ∉ issued) ∧ (d.decode code).answer = .error (.unknownCode code))) ∧
    d.records.primary.Confined ∧ d.records.secondary.Confined := by
  intro d issued
  have hcreate := create_sound config
  have hd : d.Sound := (hcreate.serveAll requests).sound
  have hissued : ∀ t, d.Coded t code ↔ (t, code) ∈ issued := by
    intro t
    rw [hcreate.coded_serveAll h requests, or_iff_right (not_coded_create config)]
  refine ⟨?_, hd.records.laid.primary.confined, hd.records.laid.secondary.confined⟩
  simpa only [hissued] using hd.decode_cases h

end TermDictionary

/-- A code that leads into the middle of an identifier.  What lies there looks like the record of
another blank node, which has a record elsewhere. -/
theorem TermDictionary.decode_issued_or_unknown_disguised :
    let d := (create {}).serveAll [.encode (.blank "xxP\x01a"), .encode (.blank "a")]
    (⟨2⟩ : Code).isEmbedded = false ∧ d.records.keyAt? ⟨2⟩ = some ⟨.blankNode, 0, "a"⟩ ∧
      (d.decode ⟨2⟩).answer = .error (.unknownCode ⟨2⟩) := by
  refine ⟨by decide, by decide +kernel, ?_⟩
  have hforeign : (⟨2⟩ : Code).isEmbedded = false := by decide
  rcases (decode_issued_or_unknown {} [.encode (.blank "xxP\x01a"), .encode (.blank "a")]
    hforeign).1 with ⟨t, hmem, -⟩ | ⟨-, hanswer⟩
  · have hcodes : ∀ pair ∈ (create {}).issuesAll
        [.encode (.blank "xxP\x01a"), .encode (.blank "a")], pair.2 ≠ ⟨2⟩ := by decide +kernel
    exact absurd rfl (hcodes _ hmem)
  · exact hanswer

end QuadBase.Dictionary
