import QuadBase.Proofs.Dictionary.Permanence
import QuadBase.Proofs.Store.Reachable
import QuadBase.Stream.Coding
import QuadBase.Stream.Loader

/-!
# From quads to codes and back

Quads are encoded with a dictionary, the codes are kept somewhere, and later they are decoded and
loaded into a store.  The two halves meet at `TermDictionary.Stands`: the codes stand for the
components of a quad.  It survives whatever the dictionary or a fork of it does in between
(`Follows.stands`).

* `handleAll_encoding` — codes that have been collected stand for the quads.
* `run_decoding` — **a handler behind a decoder receives the quads**, whatever it does with them.
* `run_loader` — loading quads is extending the store by them.
* `loads_encoded` — all in one: the store at the end has its old quads and those of the stream.
-/

namespace QuadBase

open QuadBase.Rdf

/-! ## Codes of quads -/

namespace Dictionary.TermDictionary

variable [Text.Hasher] {d e : TermDictionary} {quad : Quad} {codes : CodedQuad}

/-- The code stands for the graph name. -/
inductive Names (d : TermDictionary) : GraphName → Code → Prop where
  | defaultGraph : Names d .defaultGraph .null
  | named {r : Resource} {code : Code} (h : d.Represents (.resource r) code) :
      Names d (.named r) code

/-- The codes stand for the components of the quad. -/
structure Stands (d : TermDictionary) (codes : CodedQuad) (quad : Quad) : Prop where
  subject : d.Represents (.resource quad.subject) codes.subject
  predicate : d.Represents (.iri quad.predicate) codes.predicate
  object : d.Represents quad.object codes.object
  graph : d.Names quad.graph codes.graph

lemma Follows.names (h : d.Follows e) {graph : GraphName} {code : Code}
    (hnames : d.Names graph code) : e.Names graph code := by
  cases hnames with
  | defaultGraph => exact .defaultGraph
  | named hcode => exact .named (h.represents hcode)

/-- Codes stand for a quad for good. -/
lemma Follows.stands (h : d.Follows e) (hstands : d.Stands codes quad) : e.Stands codes quad :=
  ⟨h.represents hstands.subject, h.represents hstands.predicate, h.represents hstands.object,
    h.names hstands.graph⟩

/-- The code of the default graph is the null code. -/
lemma graph_of_encodeQuad (h : (d.encodeQuad quad).answer = .ok codes)
    (hgraph : quad.graph = .defaultGraph) : codes.graph = .null := by
  obtain ⟨_, -, h, -⟩ := andThen_answer_eq_ok h
  obtain ⟨_, -, h, -⟩ := andThen_answer_eq_ok h
  obtain ⟨_, -, h, -⟩ := andThen_answer_eq_ok h
  obtain ⟨code, hcode, h, -⟩ := andThen_answer_eq_ok h
  rw [hgraph] at hcode
  obtain rfl := Except.ok.inj h
  exact (Except.ok.inj hcode).symm

/-- **The codes of a quad stand for it.** -/
theorem Sound.stands_of_encodeQuad (hd : d.Sound) (h : (d.encodeQuad quad).answer = .ok codes) :
    (d.encodeQuad quad).dictionary.Stands codes quad := by
  obtain ⟨hsubject, hpredicate, hobject, hnamed⟩ := hd.represents_of_encodeQuad h
  refine ⟨hsubject, hpredicate, hobject, ?_⟩
  cases hgraph : quad.graph with
  | defaultGraph =>
    rw [graph_of_encodeQuad h hgraph]
    exact .defaultGraph
  | named r => exact .named (hnamed r hgraph)

omit [Text.Hasher] in
/-- After a success the answer is the next one. -/
lemma andThen_answer_of_ok {α β : Type} {o : Outcome (Except DictionaryError α)}
    {next : α → TermDictionary → Outcome (Except DictionaryError β)} {a : α}
    (h : o.answer = .ok a) : (o.andThen next).answer = (next a o.dictionary).answer := by
  obtain ⟨answer, calls, e⟩ := o
  obtain rfl : answer = .ok a := h
  rfl

/-- A resource is found behind its code. -/
lemma Represents.decodeResource {r : Resource} {code : Code}
    (h : d.Represents (.resource r) code) (hd : d.Sound) (position : Position) :
    (d.decodeResource position code).answer = .ok r :=
  andThen_answer_of_ok (h.decode hd)

lemma Represents.decodeIri {i : Iri} {code : Code} (h : d.Represents (.iri i) code) (hd : d.Sound)
    (position : Position) : (d.decodeIri position code).answer = .ok i :=
  andThen_answer_of_ok (h.decode hd)

omit [Text.Hasher] in
/-- The code of a resource is not the null code, as no record lies there. -/
lemma Represents.isNull_resource {r : Resource} {code : Code}
    (h : d.Represents (.resource r) code) : code.isNull = false := by
  rcases h with hembed | ⟨-, key, -, hissued⟩
  · cases hembed
  · have hindexed := isIndexed_of_issued hissued
    rw [Code.isNull, beq_eq_false_iff_ne]
    rintro rfl
    cases hindexed

lemma Names.decodeGraph {graph : GraphName} {code : Code} (h : d.Names graph code)
    (hd : d.Sound) : (d.decodeGraph code).answer = .ok graph := by
  cases h with
  | defaultGraph => rfl
  | named hcode =>
    rw [TermDictionary.decodeGraph, hcode.isNull_resource, if_neg Bool.false_ne_true]
    exact andThen_answer_of_ok (hcode.decodeResource hd .graph)

/-- **Codes that stand for a quad are decoded to it.** -/
theorem Stands.decodeQuad (h : d.Stands codes quad) (hd : d.Sound) :
    (d.decodeQuad codes).answer = .ok quad := by
  have h₁ := hd.decodeResource .subject codes.subject
  have h₂ := h₁.sound.decodeIri .predicate codes.predicate
  have h₃ := h₂.sound.decode codes.object
  rw [TermDictionary.decodeQuad, andThen_answer_of_ok (h.subject.decodeResource hd .subject),
    andThen_answer_of_ok ((h₁.represents h.predicate).decodeIri h₁.sound .predicate),
    andThen_answer_of_ok (((h₁.trans h₂).represents h.object).decode h₂.sound),
    andThen_answer_of_ok ((((h₁.trans h₂).trans h₃).names h.graph).decodeGraph h₃.sound)]
  rfl

end Dictionary.TermDictionary

/-! ## Streams -/

namespace Stream

open Dictionary Store QuadStore

variable [Text.Hasher] {σ ε α β : Type} {d e : TermDictionary} {lift : DictionaryError → ε}

omit [Text.Hasher] in
/-- Where the start and the end of a stream are let pass, the items are all there is to it. -/
lemma run_eq_handleAll {h : Handler σ ε α} (hstart : ∀ s, h.start s = (.ok (), s))
    (hfinish : ∀ s, h.finish s = (.ok (), s)) (items : List α) (s : σ) :
    h.run items s = h.handleAll items s := by
  rw [Handler.run, hstart]
  dsimp only
  cases h.handleAll items s with
  | mk result s' =>
    cases result with
    | error error => rfl
    | ok => exact hfinish s'

omit [Text.Hasher] in
/-- What has been converted is passed on. -/
lemma handle_converting {conversion : TermDictionary → α → Outcome (Except DictionaryError β)}
    {item : α} {converted : β} {more : Calls} (h : conversion d item = ⟨.ok converted, more, e⟩)
    (inner : Handler σ ε β) (calls : Calls) (s : σ) :
    (converting conversion lift inner).handle item ⟨d, calls, s⟩ =
      ((inner.handle converted s).1, ⟨e, calls + more, (inner.handle converted s).2⟩) := by
  simp only [converting, passOn, h]

omit [Text.Hasher] in
/-- A failure is not passed on. -/
lemma handle_converting_error
    {conversion : TermDictionary → α → Outcome (Except DictionaryError β)} {item : α}
    {error : DictionaryError} {more : Calls} (h : conversion d item = ⟨.error error, more, e⟩)
    (inner : Handler σ ε β) (calls : Calls) (s : σ) :
    (converting conversion lift inner).handle item ⟨d, calls, s⟩ =
      (.error (lift error), ⟨e, calls + more, s⟩) := by
  simp only [converting, passOn, h]

/-- **What has been collected behind an encoder stands for the quads**, one by one. -/
theorem handleAll_encoding (hd : d.Sound) {quads : List Quad} {calls : Calls}
    {kept : Array CodedQuad} {t : Through (Array CodedQuad)}
    (h : (encoding lift Handler.collect).handleAll quads ⟨d, calls, kept⟩ = (.ok (), t)) :
    d.Follows t.dictionary ∧ ∃ codes, t.inner.toList = kept.toList ++ codes ∧
      List.Forall₂ t.dictionary.Stands codes quads := by
  induction quads generalizing d calls kept with
  | nil =>
    obtain rfl := (Prod.mk.inj h).2
    exact ⟨hd.follows, [], (List.append_nil _).symm, .nil⟩
  | cons quad quads ih =>
    have hfollows := hd.encodeQuad quad
    rw [Handler.handleAll, encoding] at h
    cases hencode : d.encodeQuad quad with
    | mk answer more e =>
      rw [hencode] at hfollows
      cases answer with
      | error error =>
        rw [handle_converting_error hencode] at h
        cases h
      | ok codes =>
        have hstands := hd.stands_of_encodeQuad (congrArg Outcome.answer hencode)
        rw [hencode] at hstands
        rw [handle_converting hencode] at h
        obtain ⟨hrest, rest, hkept, hall⟩ := ih hfollows.sound h
        refine ⟨hfollows.trans hrest, codes :: rest, ?_, .cons (hrest.stands hstands) hall⟩
        have hpush : (kept.push codes).toList ++ rest = kept.toList ++ codes :: rest := by simp
        exact hkept.trans hpush

/-- The same of a whole stream. -/
lemma stands_of_encoded (hd : d.Sound) {quads : List Quad}
    (h : (throughDictionary (encoding lift Handler.collect) quads #[] d).answer.1 = .ok ()) :
    let encoded := throughDictionary (encoding lift Handler.collect) quads #[] d
    encoded.dictionary.Sound ∧
      List.Forall₂ encoded.dictionary.Stands encoded.answer.2.toList quads := by
  have hrun := run_eq_handleAll (h := encoding lift Handler.collect) (fun _ => rfl) (fun _ => rfl)
    quads ⟨d, .none, #[]⟩
  rw [throughDictionary, hrun] at h ⊢
  cases hall : (encoding lift Handler.collect).handleAll quads ⟨d, .none, #[]⟩ with
  | mk result t =>
    rw [hall] at h
    obtain rfl : result = .ok () := h
    obtain ⟨hfollows, codes, hcodes, hstands⟩ := handleAll_encoding hd hall
    refine ⟨hfollows.sound, ?_⟩
    change List.Forall₂ t.dictionary.Stands t.inner.toList quads
    rwa [hcodes]

/-- A handler behind a decoder receives the quads that the codes stand for. -/
theorem handleAll_decoding (hd : d.Sound) {codes : List CodedQuad} {quads : List Quad}
    (h : List.Forall₂ d.Stands codes quads) (inner : Handler σ ε Quad) (calls : Calls) (s : σ) :
    ∃ e more, (decoding lift inner).handleAll codes ⟨d, calls, s⟩ =
      ((inner.handleAll quads s).1, ⟨e, more, (inner.handleAll quads s).2⟩) := by
  induction codes generalizing d quads calls s with
  | nil =>
    cases h
    exact ⟨d, calls, rfl⟩
  | cons code codes ih =>
    cases h with | @cons _ quad _ quads hstands hall
    have hfollows := hd.decodeQuad code
    have hanswer := hstands.decodeQuad hd
    rw [Handler.handleAll, Handler.handleAll, decoding]
    cases hdecode : d.decodeQuad code with
    | mk answer more e =>
      rw [hdecode] at hfollows hanswer
      obtain rfl : answer = .ok quad := hanswer
      rw [handle_converting hdecode]
      cases inner.handle quad s with
      | mk result s' =>
        cases result with
        | error error => exact ⟨e, calls + more, rfl⟩
        | ok => exact ih hfollows.sound (hall.imp fun _ _ => hfollows.stands) (calls + more) s'

/-- **A handler behind a decoder is sent the stream of the quads**, from start to end. -/
theorem run_decoding (hd : d.Sound) {codes : List CodedQuad} {quads : List Quad}
    (h : List.Forall₂ d.Stands codes quads) (inner : Handler σ ε Quad) (s : σ) :
    (throughDictionary (decoding lift inner) codes s d).answer = inner.run quads s := by
  have hstart : (decoding lift inner).start ⟨d, .none, s⟩ =
      ((inner.start s).1, ⟨d, .none, (inner.start s).2⟩) := rfl
  rw [throughDictionary, Handler.run, Handler.run, hstart]
  cases inner.start s with
  | mk result s' =>
    cases result with
    | error error => rfl
    | ok =>
      obtain ⟨e, more, hall⟩ := handleAll_decoding hd h inner .none s'
      dsimp only
      rw [hall]
      cases inner.handleAll quads s' with
      | mk result s'' => cases result <;> rfl

/-- Loading quads is adding them one after the other. -/
theorem handleAll_loader (s : QuadStore) (count : Nat) (quads : List Quad) :
    Leads (s.extendFrom count quads)
      (fun error _ => (Loader.handler.handleAll quads ⟨s, count⟩).1 = .error (.store error))
      fun total s' => Loader.handler.handleAll quads ⟨s, count⟩ = (.ok (), ⟨s', total⟩) := by
  induction quads generalizing s count with
  | nil => rfl
  | cons quad quads ih =>
    rw [QuadStore.extendFrom, Handler.handleAll]
    have hload : Loader.handler.handle quad ⟨s, count⟩ = Loader.load quad ⟨s, count⟩ := rfl
    rw [hload, Loader.load]
    cases s.insert quad with
    | mk answer s' =>
      cases answer with
      | error error => rfl
      | ok added => exact ih s' _

/-- **Loading quads counts those that are new**, each once, or some stock of the store is full. -/
theorem run_loader {s : QuadStore} (hs : s.Sound) (quads : List Quad) :
    (∃ stock limit, (Loader.handler.run quads (Loader.create s)).1 =
      .error (.store (.capacityExceeded stock limit))) ∨
    ∃ s', Loader.handler.run quads (Loader.create s) =
        (.ok (), ⟨s', (quads.toFinset \ s.contents).card⟩) ∧ Gains s quads.toFinset s' := by
  have hextend := hs.extendFrom 0 quads
  have hload := handleAll_loader s 0 quads
  have hrun : Loader.handler.run quads (Loader.create s) =
      Loader.handler.handleAll quads ⟨s, 0⟩ := run_eq_handleAll (fun _ => rfl) (fun _ => rfl) _ _
  rw [hrun]
  cases hanswer : s.extendFrom 0 quads with
  | mk answer s' =>
    rw [hanswer] at hextend hload
    cases answer with
    | error error =>
      obtain ⟨⟨stock, limit, rfl⟩, -⟩ := hextend
      exact Or.inl ⟨stock, limit, hload⟩
    | ok total =>
      obtain ⟨hgains, rfl⟩ := hextend
      rw [Nat.zero_add] at hload
      exact Or.inr ⟨s', hload, hgains⟩

/-- **Quads survive their codes.**  Quads that a dictionary has encoded are loaded from their codes
without a refusal, whatever the dictionary or a fork of it has been asked for in between, as long as
the store has room.  The store then holds its old quads and those of the stream, and as many have
been counted as it did not hold before. -/
theorem loads_encoded (config : Dictionary.Config) (before later : List Request)
    (storeConfig : Store.Config) (operations : List Operation) (quads : List Quad) :
    let encoded := throughDictionary (encoding TransferError.dictionary Handler.collect) quads #[]
      ((TermDictionary.create config).serveAll before)
    let s := reached storeConfig operations
    let loading := throughDictionary (decoding TransferError.dictionary Loader.handler)
      encoded.answer.2.toList (Loader.create s) (encoded.dictionary.serveAll later)
    encoded.answer.1 = .ok () →
    (∀ stock limit, loading.answer.1 ≠ .error (.store (.capacityExceeded stock limit))) →
    loading.answer.1 = .ok () ∧
      loading.answer.2.loaded = (quads.toFinset.filter fun q => s.contains q = false).card ∧
      ∀ q, loading.answer.2.store.contains q = true ↔ s.contains q = true ∨ q ∈ quads := by
  intro encoded s loading hencoded hroom
  have hd : ((TermDictionary.create config).serveAll before).Sound :=
    ((TermDictionary.create_sound config).serveAll before).sound
  have hs : s.Sound := reached_sound storeConfig operations
  obtain ⟨hsound, hall⟩ := stands_of_encoded hd hencoded
  have hlater := hsound.serveAll later
  have hloading : loading.answer = Loader.handler.run quads (Loader.create s) :=
    run_decoding hlater.sound (hall.imp fun _ _ => hlater.stands) _ _
  rw [hloading] at hroom ⊢
  rcases run_loader hs quads with ⟨stock, limit, hfull⟩ | ⟨s', hrun, hgains⟩
  · exact absurd hfull (hroom stock limit)
  · have hnew : quads.toFinset \ s.contents =
        quads.toFinset.filter fun q => s.contains q = false := by
      ext q
      rw [Finset.mem_sdiff, Finset.mem_filter, mem_contents, ← hs.contains_iff, Bool.not_eq_true]
    rw [hrun, hnew]
    refine ⟨rfl, rfl, ?_⟩
    intro q
    rw [hgains.sound.contains_iff, hs.contains_iff, ← mem_contents, hgains.contents_eq,
      Finset.mem_union, mem_contents, List.mem_toFinset]

end Stream

open Dictionary Store QuadBase.Stream in
/-- A stream with a repeated quad, a packed number and a named graph, of which the store has one
quad already; in between, the dictionary refuses a code and is forked. -/
theorem Stream.loads_encoded_repeated :
    let number : Quad :=
      ⟨.blank "", ⟨"b"⟩, .literal (.ofDatatype "7" (xsd "integer")), .defaultGraph⟩
    let link : Quad := ⟨.blank "", ⟨"b"⟩, .blank "", .named (.blank "")⟩
    let encoded := throughDictionary (encoding TransferError.dictionary Handler.collect)
      [number, link, number] #[] ((TermDictionary.create {}).serveAll [])
    let loading := throughDictionary (decoding TransferError.dictionary Loader.handler)
      encoded.answer.2.toList (Loader.create (reached {} [.edit (.insert link)]))
      (encoded.dictionary.serveAll [.decode ⟨5⟩, .fork])
    loading.answer.1 = .ok () ∧ loading.answer.2.loaded = 1 := by
  intro number link encoded loading
  have hencoded : encoded.answer.1 = .ok () := by decide +kernel
  have hroom : loading.answer.1 = .ok () := by decide +kernel
  obtain ⟨hok, hloaded, -⟩ := loads_encoded {} [] [.decode ⟨5⟩, .fork] {} [.edit (.insert link)]
    [number, link, number] hencoded (fun stock limit hfull => by cases hroom.symm.trans hfull)
  refine ⟨hok, hloaded.trans ?_⟩
  decide +kernel

end QuadBase
