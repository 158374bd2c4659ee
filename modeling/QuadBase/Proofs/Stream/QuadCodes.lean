import QuadBase.Proofs.Dictionary.Canonical
import QuadBase.Proofs.Dictionary.Tuning
import QuadBase.Proofs.Stream.Pipeline

/-!
# Four codes at a time

Four codes are decoded to a quad if each of them may stand where it stands.  Which ones may is a
matter of the terms that they are decoded to, one by one: a quad is decoded in four steps, and all
that a step leaves to the next ones is a cache.

* `Admits`, `Fault` — a code may stand at a position, or why it may not.
* `Sound.decodeQuad_eq_ok_iff` — the quad is the one of the four terms.
* `Sound.decodeQuad_eq_error_iff` — the failure is the fault of the first position at fault.
* `Stands.encodeQuad` — codes that stand for a quad are the ones that it is encoded to.
* `quad_codec` — **encoding and decoding of quads**: there and back, which codes are decoded at all,
  and back again.
-/

namespace QuadBase

open QuadBase.Rdf

/-- The code at a position. -/
def CodedQuad.codeAt (codes : CodedQuad) : Position → Code
  | .subject => codes.subject
  | .predicate => codes.predicate
  | .object => codes.object
  | .graph => codes.graph

/-- The positions in the order in which quads are written. -/
def Rdf.Position.inOrder : List Position :=
  [.subject, .predicate, .object, .graph]

/-- The class of terms that a position calls for.  The object may be any term. -/
def Rdf.Position.calledFor : Position → Option TermClass
  | .subject => some .resource
  | .predicate => some .iri
  | .object => none
  | .graph => some .resource

lemma Rdf.Position.mem_inOrder (p : Position) : p ∈ Position.inOrder := by
  cases p <;> decide

namespace Dictionary.TermDictionary

variable [Text.Hasher] {d e f : TermDictionary} {code : Code} {position : Position} {t : Term}
  {quad : Quad} {codes : CodedQuad} {error : DictionaryError}

/-! ## What may stand where -/

/-- The code may stand at the position. -/
def Admits (d : TermDictionary) (code : Code) : Position → Prop
  | .subject => ∃ r : Resource, (d.decode code).answer = .ok (.resource r)
  | .predicate => ∃ i : Iri, (d.decode code).answer = .ok (.iri i)
  | .object => ∃ t, (d.decode code).answer = .ok t
  | .graph => code = .null ∨ ∃ r : Resource, (d.decode code).answer = .ok (.resource r)

/-- Why the code may not stand at the position. -/
inductive Fault (d : TermDictionary) (code : Code) (position : Position) :
    DictionaryError → Prop where
  /-- No term is behind it. -/
  | unknown (hnot : ¬ d.Admits code position) (h : ∀ t, (d.decode code).answer ≠ .ok t) :
      Fault d code position (.unknownCode code)
  /-- The term behind it is of another class than the position calls for. -/
  | misplaced {t : Term} {expected : TermClass} (hnot : ¬ d.Admits code position)
      (h : (d.decode code).answer = .ok t) (hexpected : expected ∈ position.calledFor) :
      Fault d code position (.unexpectedTerm position expected t.text)

lemma Fault.not_admits (h : d.Fault code position error) : ¬ d.Admits code position := by
  cases h with
  | unknown hnot | misplaced hnot => exact hnot

/-- A code is at fault for one reason. -/
lemma Fault.unique {other : DictionaryError} (h : d.Fault code position error)
    (h' : d.Fault code position other) : error = other := by
  cases h with
  | unknown _ hnone =>
    cases h' with
    | unknown => rfl
    | misplaced _ hok => exact absurd hok (hnone _)
  | misplaced _ hok hexpected =>
    cases h' with
    | unknown _ hnone => exact absurd hok (hnone _)
    | misplaced _ hok' hexpected' =>
      obtain rfl := Except.ok.inj (hok.symm.trans hok')
      obtain rfl := Option.some.inj (hexpected.symm.trans hexpected')
      rfl

/-- An answer about a code is a value if the code may stand at the position, and its fault
otherwise. -/
structure Decides {α : Type} (d : TermDictionary) (code : Code) (position : Position)
    (answer : Except DictionaryError α) : Prop where
  ok : ∀ {a}, answer = .ok a → d.Admits code position
  error : ∀ {error}, answer = .error error → d.Fault code position error

lemma Decides.of_admits {α : Type} {a : α} (h : d.Admits code position) :
    d.Decides code position (.ok a) :=
  ⟨fun _ => h, fun herror => by cases herror⟩

lemma Decides.of_fault {α : Type} (h : d.Fault code position error) :
    d.Decides (α := α) code position (.error error) := by
  refine ⟨fun hok => (by cases hok), ?_⟩
  rintro _ ⟨⟩
  exact h

/-- Decoding fails in one way only. -/
lemma Sound.decode_eq_error (hd : d.Sound) (h : (d.decode code).answer = .error error) :
    error = .unknownCode code := by
  cases hcode : code.isEmbedded with
  | true =>
    rw [answer_decode_of_embedded hcode] at h
    cases hunembed : unembed? code with
    | none =>
      rw [hunembed] at h
      exact (Except.error.inj h).symm
    | some own =>
      rw [hunembed] at h
      cases h
  | false =>
    rcases hd.decode_cases hcode with ⟨t, -, hok⟩ | ⟨-, herror⟩
    · cases hok.symm.trans h
    · exact Except.error.inj (h.symm.trans herror)

/-- A code that is not decoded is at fault wherever it may not stand. -/
lemma Sound.fault_of_error (hd : d.Sound) (hnot : ¬ d.Admits code position)
    (h : (d.decode code).answer = .error error) : d.Fault code position error := by
  rw [hd.decode_eq_error h]
  refine .unknown hnot ?_
  intro t hok
  cases hok.symm.trans h

omit [Text.Hasher] in
/-- A check of what has been found is the rest of the answer. -/
lemma answer_andThen {α β : Type} (o : Outcome (Except DictionaryError α))
    (check : α → Except DictionaryError β) :
    (o.andThen fun a d => d.answer (check a)).answer = o.answer.bind check := by
  obtain ⟨answer, calls, e⟩ := o
  cases answer <;> rfl

/-- A code is decided on by a check of the term behind it. -/
lemma Sound.decides_of_check {α : Type} (hd : d.Sound) {check : Term → Except DictionaryError α}
    (hsome : d.Admits code position → ∃ t, (d.decode code).answer = .ok t)
    (hcheck : ∀ t, (d.decode code).answer = .ok t → d.Decides code position (check t)) :
    d.Decides code position ((d.decode code).andThen fun t d => d.answer (check t)).answer := by
  rw [answer_andThen]
  cases hanswer : (d.decode code).answer with
  | ok t => exact hcheck t hanswer
  | error own =>
    refine .of_fault (hd.fault_of_error ?_ hanswer)
    intro hadmits
    obtain ⟨t, hok⟩ := hsome hadmits
    cases hanswer.symm.trans hok

/-- Where a resource is called for, a code is decided on by whether a resource is behind it. -/
lemma Sound.decides_resource (hd : d.Sound) (hclass : .resource ∈ position.calledFor)
    (hadmits : d.Admits code position ↔
      ∃ r : Resource, (d.decode code).answer = .ok (.resource r)) :
    d.Decides code position (d.decodeResource position code).answer := by
  refine hd.decides_of_check (fun h => (hadmits.1 h).imp' _ fun _ hr => hr) ?_
  intro t ht
  cases t with
  | resource r => exact .of_admits (hadmits.2 ⟨r, ht⟩)
  | literal l =>
    refine .of_fault (.misplaced ?_ ht hclass)
    rw [hadmits]
    rintro ⟨r, hr⟩
    cases ht.symm.trans hr

lemma Sound.decides_subject (hd : d.Sound) (code : Code) :
    d.Decides code .subject (d.decodeResource .subject code).answer :=
  hd.decides_resource rfl Iff.rfl

lemma Sound.decides_predicate (hd : d.Sound) (code : Code) :
    d.Decides code .predicate (d.decodeIri .predicate code).answer := by
  refine hd.decides_of_check (fun ⟨_, hi⟩ => ⟨_, hi⟩) ?_
  intro t ht
  match t with
  | .resource (.iri i) => exact .of_admits ⟨i, ht⟩
  | .resource (.blank _) | .literal _ =>
    refine .of_fault (.misplaced ?_ ht rfl)
    rintro ⟨i, hi⟩
    cases ht.symm.trans hi

lemma Sound.decides_object (hd : d.Sound) (code : Code) :
    d.Decides code .object (d.decode code).answer where
  ok h := ⟨_, h⟩
  error := by
    intro error h
    refine hd.fault_of_error ?_ h
    rintro ⟨t, hok⟩
    cases hok.symm.trans h

/-- The null code needs no term in the graph position. -/
lemma Sound.decides_graph (hd : d.Sound) (code : Code) :
    d.Decides code .graph (d.decodeGraph code).answer := by
  rw [TermDictionary.decodeGraph]
  split
  case isTrue hnull => exact .of_admits (Or.inl (beq_iff_eq.1 hnull))
  case isFalse hnull =>
    have hadmits : d.Admits code .graph ↔
        ∃ r : Resource, (d.decode code).answer = .ok (.resource r) :=
      or_iff_right fun h => hnull (beq_iff_eq.2 h)
    have hdecides : d.Decides code .graph (d.decodeResource .graph code).answer :=
      hd.decides_resource rfl hadmits
    rw [answer_andThen _ fun r => .ok (GraphName.named r)]
    cases hresource : (d.decodeResource .graph code).answer with
    | error own => exact .of_fault (hdecides.error hresource)
    | ok r => exact .of_admits (hdecides.ok hresource)

/-! ## One code after the other -/

/-- The fault of the first of some positions whose code may not stand there. -/
inductive FirstFault (d : TermDictionary) (codes : CodedQuad) :
    List Position → DictionaryError → Prop where
  | here {p : Position} {rest : List Position} {error : DictionaryError}
      (h : d.Fault (codes.codeAt p) p error) : FirstFault d codes (p :: rest) error
  | later {p : Position} {rest : List Position} {error : DictionaryError}
      (hfirst : d.Admits (codes.codeAt p) p) (h : FirstFault d codes rest error) :
      FirstFault d codes (p :: rest) error

lemma FirstFault.unique {positions : List Position} {other : DictionaryError}
    (h : d.FirstFault codes positions error) (h' : d.FirstFault codes positions other) :
    error = other := by
  induction h with
  | here h =>
    cases h' with
    | here h' => exact h.unique h'
    | later hfirst => exact absurd hfirst h.not_admits
  | later hfirst _ ih =>
    cases h' with
    | here h' => exact absurd hfirst h'.not_admits
    | later _ h' => exact ih h'

lemma FirstFault.exists_not_admits {positions : List Position}
    (h : d.FirstFault codes positions error) : ∃ p, ¬ d.Admits (codes.codeAt p) p := by
  induction h with
  | here h => exact ⟨_, h.not_admits⟩
  | later _ _ ih => exact ih

/-- An answer about some positions is a value if each code may stand where it stands, and the first
fault otherwise. -/
structure DecidesAll {α : Type} (d : TermDictionary) (codes : CodedQuad)
    (positions : List Position) (answer : Except DictionaryError α) : Prop where
  ok : ∀ {a}, answer = .ok a → ∀ p ∈ positions, d.Admits (codes.codeAt p) p
  error : ∀ {error}, answer = .error error → d.FirstFault codes positions error

/-- One position and the rest. -/
lemma DecidesAll.step {α β : Type} {p : Position} {rest : List Position}
    {o : Outcome (Except DictionaryError α)}
    {next : α → TermDictionary → Outcome (Except DictionaryError β)}
    (h : d.Decides (codes.codeAt p) p o.answer)
    (hnext : ∀ a, d.DecidesAll codes rest (next a o.dictionary).answer) :
    d.DecidesAll codes (p :: rest) (o.andThen next).answer := by
  obtain ⟨answer, calls, e⟩ := o
  cases answer with
  | error own =>
    refine ⟨fun hok => (by cases hok), ?_⟩
    rintro _ ⟨⟩
    exact .here (h.error rfl)
  | ok a =>
    refine ⟨?_, fun herror => .later (h.ok rfl) ((hnext a).error herror)⟩
    intro b hok
    exact List.forall_mem_cons.2 ⟨h.ok rfl, (hnext a).ok hok⟩

/-- What has only touched the caches is still alike. -/
lemma Alike.onward (h : d.Alike e) (hcaches : e.OnlyCaches f) (hfollows : e.Follows f) :
    d.Alike f :=
  h.onlyCaches (.refl d) hcaches h.left hfollows.sound

/-- What is left after each of the first three codes is still alike. -/
lemma Sound.alike_decodeQuad (hd : d.Sound) (codes : CodedQuad) :
    let d₁ := (d.decodeResource .subject codes.subject).dictionary
    let d₂ := (d₁.decodeIri .predicate codes.predicate).dictionary
    d.Alike d₁ ∧ d.Alike d₂ ∧ d.Alike (d₂.decode codes.object).dictionary := by
  intro d₁ d₂
  have h₁ : d.Alike d₁ := (Alike.refl hd).onward (d.onlyCaches_decodeResource _ _)
    (hd.decodeResource _ _)
  have h₂ : d.Alike d₂ := h₁.onward (d₁.onlyCaches_decodeIri _ _) (h₁.right.decodeIri _ _)
  exact ⟨h₁, h₂, h₂.onward (d₂.onlyCaches_decode _) (h₂.right.decode _)⟩

/-- **Four codes are decoded, or come to their first fault.** -/
theorem Sound.decidesAll (hd : d.Sound) (codes : CodedQuad) :
    d.DecidesAll codes Position.inOrder (d.decodeQuad codes).answer := by
  obtain ⟨h₁, h₂, h₃⟩ := hd.alike_decodeQuad codes
  refine .step (hd.decides_subject codes.subject) fun subject => ?_
  refine .step ?_ fun predicate => ?_
  · rw [← (h₁.decodeIri .predicate codes.predicate).answer]
    exact hd.decides_predicate codes.predicate
  refine .step ?_ fun object => ?_
  · rw [← (h₂.decode codes.object).answer]
    exact hd.decides_object codes.object
  refine .step ?_ fun graph => ?_
  · rw [← (h₃.decodeGraph codes.graph).answer]
    exact hd.decides_graph codes.graph
  exact ⟨fun _ p hp => absurd hp List.not_mem_nil, fun herror => by cases herror⟩

/-- Four codes are decoded exactly if each of them may stand where it stands. -/
lemma Sound.exists_decodeQuad_iff (hd : d.Sound) (codes : CodedQuad) :
    (∃ quad, (d.decodeQuad codes).answer = .ok quad) ↔
      ∀ p, d.Admits (codes.codeAt p) p := by
  have hdecides := hd.decidesAll codes
  constructor
  · rintro ⟨quad, hok⟩ p
    exact hdecides.ok hok p p.mem_inOrder
  · intro hall
    cases hanswer : (d.decodeQuad codes).answer with
    | ok quad => exact ⟨quad, rfl⟩
    | error error =>
      obtain ⟨p, hnot⟩ := (hdecides.error hanswer).exists_not_admits
      exact absurd (hall p) hnot

/-- **The failure is the fault of the first position at fault.** -/
theorem Sound.decodeQuad_eq_error_iff (hd : d.Sound) (codes : CodedQuad) :
    (d.decodeQuad codes).answer = .error error ↔
      d.FirstFault codes Position.inOrder error := by
  have hdecides := hd.decidesAll codes
  refine ⟨hdecides.error, ?_⟩
  intro hfault
  cases hanswer : (d.decodeQuad codes).answer with
  | error other => rw [(hdecides.error hanswer).unique hfault]
  | ok quad =>
    obtain ⟨p, hnot⟩ := hfault.exists_not_admits
    exact absurd (hdecides.ok hanswer p p.mem_inOrder) hnot

/-! ## The quad that is decoded -/

/-- The code is decoded to the graph name. -/
inductive ReadsGraph (d : TermDictionary) : Code → GraphName → Prop where
  | defaultGraph : ReadsGraph d .null .defaultGraph
  | named {code : Code} {r : Resource} (h : (d.decode code).answer = .ok (.resource r)) :
      ReadsGraph d code (.named r)

lemma ReadsGraph.unique {graph other : GraphName} (h : d.ReadsGraph code graph)
    (h' : d.ReadsGraph code other) : graph = other := by
  cases h with
  | defaultGraph =>
    cases h' with
    | defaultGraph => rfl
    | named h => cases h
  | named h =>
    cases h' with
    | defaultGraph => cases h
    | named h' =>
      obtain rfl := Term.resource.inj (Except.ok.inj (h.symm.trans h'))
      rfl

lemma ReadsGraph.admits {graph : GraphName} (h : d.ReadsGraph code graph) :
    d.Admits code .graph := by
  cases h with
  | defaultGraph => exact Or.inl rfl
  | named h => exact Or.inr ⟨_, h⟩

/-- The codes are decoded to the components of the quad, one by one. -/
structure Reads (d : TermDictionary) (codes : CodedQuad) (quad : Quad) : Prop where
  subject : (d.decode codes.subject).answer = .ok (.resource quad.subject)
  predicate : (d.decode codes.predicate).answer = .ok (.iri quad.predicate)
  object : (d.decode codes.object).answer = .ok quad.object
  graph : d.ReadsGraph codes.graph quad.graph

lemma decode_of_decodeResource {r : Resource}
    (h : (d.decodeResource position code).answer = .ok r) :
    (d.decode code).answer = .ok (.resource r) := by
  obtain ⟨t, ht, hclass, -⟩ := andThen_answer_eq_ok h
  cases t with
  | resource own =>
    obtain rfl := Except.ok.inj hclass
    exact ht
  | literal l => cases hclass

lemma decode_of_decodeIri {i : Iri} (h : (d.decodeIri position code).answer = .ok i) :
    (d.decode code).answer = .ok (.iri i) := by
  obtain ⟨t, ht, hclass, -⟩ := andThen_answer_eq_ok h
  match t with
  | .resource (.iri own) =>
    obtain rfl := Except.ok.inj hclass
    exact ht
  | .resource (.blank _) | .literal _ => cases hclass

lemma readsGraph_of_decodeGraph {graph : GraphName} (h : (d.decodeGraph code).answer = .ok graph) :
    d.ReadsGraph code graph := by
  rw [TermDictionary.decodeGraph] at h
  split at h
  case isTrue hnull =>
    obtain rfl := beq_iff_eq.1 hnull
    obtain rfl := Except.ok.inj h
    exact .defaultGraph
  case isFalse =>
    obtain ⟨r, hr, hgraph, -⟩ := andThen_answer_eq_ok h
    obtain rfl := Except.ok.inj hgraph
    exact .named (decode_of_decodeResource hr)

/-- **A quad is decoded component by component.** -/
theorem Sound.reads_of_decodeQuad (hd : d.Sound) (h : (d.decodeQuad codes).answer = .ok quad) :
    d.Reads codes quad := by
  obtain ⟨h₁, h₂, h₃⟩ := hd.alike_decodeQuad codes
  obtain ⟨subject, hsubject, h, -⟩ := andThen_answer_eq_ok h
  obtain ⟨predicate, hpredicate, h, -⟩ := andThen_answer_eq_ok h
  obtain ⟨object, hobject, h, -⟩ := andThen_answer_eq_ok h
  obtain ⟨graph, hgraph, h, -⟩ := andThen_answer_eq_ok h
  obtain rfl := Except.ok.inj h
  rw [← (h₁.decodeIri .predicate codes.predicate).answer] at hpredicate
  rw [← (h₂.decode codes.object).answer] at hobject
  rw [← (h₃.decodeGraph codes.graph).answer] at hgraph
  exact ⟨decode_of_decodeResource hsubject, decode_of_decodeIri hpredicate, hobject,
    readsGraph_of_decodeGraph hgraph⟩

/-- The codes are decoded to one quad. -/
lemma Reads.unique {other : Quad} (h : d.Reads codes quad) (h' : d.Reads codes other) :
    quad = other := by
  have hsubject := Except.ok.inj (h.subject.symm.trans h'.subject)
  have hpredicate := Except.ok.inj (h.predicate.symm.trans h'.predicate)
  have hobject := Except.ok.inj (h.object.symm.trans h'.object)
  have hgraph := h.graph.unique h'.graph
  obtain ⟨_, _, _, _⟩ := quad
  obtain ⟨_, _, _, _⟩ := other
  obtain rfl := Term.resource.inj hsubject
  obtain rfl := Resource.iri.inj (Term.resource.inj hpredicate)
  obtain rfl := hobject
  obtain rfl := hgraph
  rfl

/-- **The quad is the one of the four terms.** -/
theorem Sound.decodeQuad_eq_ok_iff (hd : d.Sound) :
    (d.decodeQuad codes).answer = .ok quad ↔ d.Reads codes quad := by
  refine ⟨hd.reads_of_decodeQuad, ?_⟩
  intro h
  have hall : ∀ p, d.Admits (codes.codeAt p) p := by
    intro p
    cases p with
    | subject => exact ⟨_, h.subject⟩
    | predicate => exact ⟨_, h.predicate⟩
    | object => exact ⟨_, h.object⟩
    | graph => exact h.graph.admits
  obtain ⟨other, hok⟩ := (hd.exists_decodeQuad_iff codes).2 hall
  rw [hok, (hd.reads_of_decodeQuad hok).unique h]

/-! ## Back to the codes -/

/-- What an encoding has answered for a term, in any dictionary at any time. -/
def EverIssued (code : Code) : Prop :=
  ∃ (config : Config) (requests : List Request) (t : Term),
    (((create config).serveAll requests).encode t).answer = .ok code

/-- A code stands for the term that it is decoded to, unless it is embedded and nobody has issued
it. -/
lemma Sound.represents_of_decode (hd : d.Sound)
    (hissued : code.isEmbedded = true → EverIssued code) (h : (d.decode code).answer = .ok t) :
    d.Represents t code := by
  cases hcode : code.isEmbedded with
  | true =>
    obtain ⟨config, requests, own, hencode⟩ := hissued hcode
    have hother : ((create config).serveAll requests).Sound :=
      ((create_sound config).serveAll requests).sound
    have hembed := (hother.encode_eq_ok_iff_embed? hcode).1 hencode
    have hdecode : (d.decode code).answer = .ok own := Represents.decode (Or.inl hembed) hd
    obtain rfl := Except.ok.inj (hdecode.symm.trans h)
    exact Or.inl hembed
  | false =>
    rcases hd.decode_cases hcode with ⟨own, hcoded, hok⟩ | ⟨-, herror⟩
    · obtain rfl := Except.ok.inj (hok.symm.trans h)
      exact Or.inr hcoded
    · cases herror.symm.trans h

lemma Sound.names_of_reads (hd : d.Sound) {graph : GraphName}
    (hissued : code.isEmbedded = true → EverIssued code) (h : d.ReadsGraph code graph) :
    d.Names graph code := by
  cases h with
  | defaultGraph => exact .defaultGraph
  | named h => exact .named (hd.represents_of_decode hissued h)

/-- Codes stand for the quad that they are decoded to, as far as they have been issued. -/
lemma Sound.stands_of_reads (hd : d.Sound)
    (hissued : ∀ p, (codes.codeAt p).isEmbedded = true → EverIssued (codes.codeAt p))
    (h : d.Reads codes quad) : d.Stands codes quad where
  subject := hd.represents_of_decode (hissued .subject) h.subject
  predicate := hd.represents_of_decode (hissued .predicate) h.predicate
  object := hd.represents_of_decode (hissued .object) h.object
  graph := hd.names_of_reads (hissued .graph) h.graph

lemma Names.encodeGraph {graph : GraphName} (h : d.Names graph code) (hd : d.Sound) :
    (d.encodeGraph graph).answer = .ok code := by
  cases h with
  | defaultGraph => rfl
  | named hcode => exact hcode.encode hd

/-- **Codes that stand for a quad are the ones that it is encoded to.** -/
theorem Stands.encodeQuad (h : d.Stands codes quad) (hd : d.Sound) :
    (d.encodeQuad quad).answer = .ok codes := by
  obtain ⟨h₁, -⟩ := hd.encode (.resource quad.subject)
  obtain ⟨h₂, -⟩ := h₁.sound.encode (.iri quad.predicate)
  obtain ⟨h₃, -⟩ := h₂.sound.encode quad.object
  rw [TermDictionary.encodeQuad, andThen_answer_of_ok (h.subject.encode hd),
    andThen_answer_of_ok ((h₁.represents h.predicate).encode h₁.sound),
    andThen_answer_of_ok (((h₁.trans h₂).represents h.object).encode h₂.sound),
    andThen_answer_of_ok ((((h₁.trans h₂).trans h₃).names h.graph).encodeGraph h₃.sound)]
  rfl

omit [Text.Hasher] in
/-- The null code stands for the default graph only. -/
lemma Names.null_iff {graph : GraphName} (h : d.Names graph code) :
    code = .null ↔ graph = .defaultGraph := by
  cases h with
  | defaultGraph => exact iff_of_true rfl rfl
  | named hcode =>
    have hnull := beq_eq_false_iff_ne.1 hcode.isNull_resource
    exact iff_of_false hnull (fun h => by cases h)

/-- **Encoding and decoding of quads.**  Whatever a dictionary has been asked for:
* the codes of a quad are decoded to it for good, and the code of the graph is the null code exactly
  for the default graph;
* four codes of whatever origin are decoded exactly if each of them may stand where it stands, and
  the failure is the fault of the first one that may not;
* the quad that four codes are decoded to is encoded to these codes, if those of them that are
  embedded have been issued. -/
theorem quad_codec (config : Config) (requests : List Request) :
    let d := (create config).serveAll requests
    (∀ quad codes, (d.encodeQuad quad).answer = .ok codes →
      (codes.graph = .null ↔ quad.graph = .defaultGraph) ∧
      ∀ later, (((d.encodeQuad quad).dictionary.serveAll later).decodeQuad codes).answer =
        .ok quad) ∧
    (∀ codes, ((∃ quad, (d.decodeQuad codes).answer = .ok quad) ↔
        ∀ p, d.Admits (codes.codeAt p) p) ∧
      ∀ error, (d.decodeQuad codes).answer = .error error ↔
        d.FirstFault codes [.subject, .predicate, .object, .graph] error) ∧
    (∀ codes quad, (d.decodeQuad codes).answer = .ok quad →
      (∀ p, (codes.codeAt p).isEmbedded = true → EverIssued (codes.codeAt p)) →
      (d.encodeQuad quad).answer = .ok codes) := by
  intro d
  have hd : d.Sound := ((create_sound config).serveAll requests).sound
  refine ⟨?_, ?_, ?_⟩
  · intro quad codes hanswer
    have hstands := hd.stands_of_encodeQuad hanswer
    refine ⟨hstands.graph.null_iff, ?_⟩
    intro later
    have hlater := (hd.encodeQuad quad).sound.serveAll later
    exact (hlater.stands hstands).decodeQuad hlater.sound
  · exact fun codes => ⟨hd.exists_decodeQuad_iff codes, fun _ => hd.decodeQuad_eq_error_iff codes⟩
  · intro codes quad hanswer hissued
    exact (hd.stands_of_reads hissued (hd.reads_of_decodeQuad hanswer)).encodeQuad hd

end Dictionary.TermDictionary

open Dictionary TermDictionary in
/-- A quad with a packed number survives a refused code and a fork, and has its codes again.  With
an unissued number for its predicate and an unknown code for its object, the predicate is the first
at fault. -/
theorem Dictionary.TermDictionary.quad_codec_number :
    let quad : Quad :=
      ⟨.blank "a", ⟨"a:b"⟩, .literal (.ofDatatype "7" (xsd "integer")), .defaultGraph⟩
    let codes : CodedQuad := ⟨⟨2⟩, ⟨3⟩, ⟨0xE2800007⟩, .null⟩
    let d := (create {}).serveAll [.encode (.blank "x"), .encodeQuad quad]
    (((d.encodeQuad quad).dictionary.serveAll [.decode ⟨5⟩, .fork]).decodeQuad codes).answer =
        .ok quad ∧
      (d.encodeQuad quad).answer = .ok codes ∧
      (d.decodeQuad ⟨⟨1⟩, ⟨0xE8000007⟩, ⟨99⟩, .null⟩).answer = .error
        (.unexpectedTerm .predicate .iri
          "\"-8388601\"^^<http://www.w3.org/2001/XMLSchema#int>") := by
  intro quad codes d
  obtain ⟨hforth, hdecoded, hback⟩ := quad_codec {} [.encode (.blank "x"), .encodeQuad quad]
  have hdecode : (d.decodeQuad codes).answer = .ok quad := by decide +kernel
  have hissued : ∀ p, (codes.codeAt p).isEmbedded = true → EverIssued (codes.codeAt p) := by
    intro p hembedded
    cases p with
    | subject | predicate | graph => exact absurd hembedded (by decide)
    | object => exact ⟨{}, [], quad.object, by decide +kernel⟩
  have hencode := hback codes quad hdecode hissued
  refine ⟨(hforth quad codes hencode).2 [.decode ⟨5⟩, .fork], hencode, ?_⟩
  have hnumber : (d.decode ⟨0xE8000007⟩).answer =
      .ok (.literal (.ofDatatype "-8388601" (xsd "int"))) := by decide +kernel
  refine ((hdecoded _).2 _).2 (.later ⟨.blank "x", by decide +kernel⟩ (.here ?_))
  refine .misplaced ?_ hnumber rfl
  rintro ⟨i, hi⟩
  cases hnumber.symm.trans hi

end QuadBase
