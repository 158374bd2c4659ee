import QuadBase.Dictionary.Quads
import QuadBase.Proofs.Dictionary.Codes

/-!
# Codes are for good

A dictionary is used by requests, one after the other, each of which may succeed or fail.
`serve_follows` says that each of them leaves a sound dictionary that knows all that was known
before, and `serveAll_follows` says it of a whole run.  A fork leaves the original as it is, so a
run that goes on with a fork takes it as one more request.

The main result is `handsOut_permanent`: **a code that has been handed out for a term is its code
for good**, in both directions, and no other term ever gets it.
-/

namespace QuadBase.Dictionary

open QuadBase.Rdf

/-- What a dictionary is asked for. -/
inductive Request where
  | encode (t : Term)
  | tryEncode (t : Term)
  | decode (code : Code)
  | encodeGraph (graph : GraphName)
  | decodeGraph (code : Code)
  | encodeQuad (quad : Quad)
  | decodeQuad (codes : CodedQuad)
  | isLiteral (code : Code)
  | isIri (code : Code)
  | isBlankNode (code : Code)
  | isResource (code : Code)
  /-- From here on the fork is asked. -/
  | fork

namespace TermDictionary

variable [Text.Hasher] {d e f : TermDictionary} {t : Term} {code : Code}

/-- The dictionary after a request. -/
def serve (d : TermDictionary) : Request → TermDictionary
  | .encode t => (d.encode t).dictionary
  | .tryEncode t => (d.tryEncode t).dictionary
  | .decode code => (d.decode code).dictionary
  | .encodeGraph graph => (d.encodeGraph graph).dictionary
  | .decodeGraph code => (d.decodeGraph code).dictionary
  | .encodeQuad quad => (d.encodeQuad quad).dictionary
  | .decodeQuad codes => (d.decodeQuad codes).dictionary
  | .isLiteral _ | .isIri _ | .isBlankNode _ | .isResource _ => d
  | .fork => d.fork

/-- The dictionary after some requests. -/
def serveAll (d : TermDictionary) (requests : List Request) : TermDictionary :=
  requests.foldl serve d

lemma serveAll_append (d : TermDictionary) (before after : List Request) :
    d.serveAll (before ++ after) = (d.serveAll before).serveAll after :=
  List.foldl_append

/-! ## One request -/

lemma Follows.andThen {α β : Type} {o : Outcome (Except DictionaryError α)}
    {next : α → TermDictionary → Outcome (Except DictionaryError β)} (h : d.Follows o.dictionary)
    (hnext : ∀ (a : α) (e : TermDictionary), e.Sound → e.Follows (next a e).dictionary) :
    d.Follows (o.andThen next).dictionary := by
  obtain ⟨answer, calls, e⟩ := o
  cases answer with
  | error error => exact h
  | ok a => exact h.trans (hnext a e h.sound)

lemma Sound.encodeGraph (hd : d.Sound) (graph : GraphName) :
    d.Follows (d.encodeGraph graph).dictionary := by
  cases graph with
  | defaultGraph => exact hd.follows
  | named r => exact (hd.encode (.resource r)).1

lemma Sound.decodeResource (hd : d.Sound) (position : Position) (code : Code) :
    d.Follows (d.decodeResource position code).dictionary :=
  (hd.decode code).andThen fun _ _ he => he.follows

lemma Sound.decodeIri (hd : d.Sound) (position : Position) (code : Code) :
    d.Follows (d.decodeIri position code).dictionary :=
  (hd.decode code).andThen fun _ _ he => he.follows

lemma Sound.decodeGraph (hd : d.Sound) (code : Code) :
    d.Follows (d.decodeGraph code).dictionary := by
  rw [TermDictionary.decodeGraph]
  split
  · exact hd.follows
  · exact (hd.decodeResource .graph code).andThen fun _ _ he => he.follows

lemma Sound.encodeQuad (hd : d.Sound) (quad : Quad) :
    d.Follows (d.encodeQuad quad).dictionary := by
  refine (hd.encode _).1.andThen ?_
  intro _ d hd
  refine (hd.encode _).1.andThen ?_
  intro _ d hd
  refine (hd.encode _).1.andThen ?_
  intro _ d hd
  exact (hd.encodeGraph _).andThen fun _ d hd => hd.follows

lemma Sound.decodeQuad (hd : d.Sound) (codes : CodedQuad) :
    d.Follows (d.decodeQuad codes).dictionary := by
  refine (hd.decodeResource _ _).andThen ?_
  intro _ d hd
  refine (hd.decodeIri _ _).andThen ?_
  intro _ d hd
  refine (hd.decode _).andThen ?_
  intro _ d hd
  exact (hd.decodeGraph _).andThen fun _ d hd => hd.follows

/-- **Every request keeps what is known.** -/
theorem Sound.serve (hd : d.Sound) (request : Request) : d.Follows (d.serve request) := by
  cases request with
  | encode t => exact (hd.encode t).1
  | tryEncode t => exact (hd.tryEncode t).1
  | decode code => exact hd.decode code
  | encodeGraph graph => exact hd.encodeGraph graph
  | decodeGraph code => exact hd.decodeGraph code
  | encodeQuad quad => exact hd.encodeQuad quad
  | decodeQuad codes => exact hd.decodeQuad codes
  | isLiteral | isIri | isBlankNode | isResource => exact hd.follows
  | fork => exact hd.follows_fork

/-! ## Codes that are handed out -/

/-- A request hands out a code for a term. -/
inductive HandsOut (d : TermDictionary) : Request → Term → Code → Prop where
  | encode {t : Term} {code : Code} (h : (d.encode t).answer = .ok code) :
      HandsOut d (.encode t) t code
  | tryEncode {t : Term} {code : Code} (h : (d.tryEncode t).answer = some code) :
      HandsOut d (.tryEncode t) t code
  | encodeGraph {r : Resource} {code : Code} (h : (d.encodeGraph (.named r)).answer = .ok code) :
      HandsOut d (.encodeGraph (.named r)) (.resource r) code
  | subject {quad : Quad} {codes : CodedQuad} (h : (d.encodeQuad quad).answer = .ok codes) :
      HandsOut d (.encodeQuad quad) (.resource quad.subject) codes.subject
  | predicate {quad : Quad} {codes : CodedQuad} (h : (d.encodeQuad quad).answer = .ok codes) :
      HandsOut d (.encodeQuad quad) (.iri quad.predicate) codes.predicate
  | object {quad : Quad} {codes : CodedQuad} (h : (d.encodeQuad quad).answer = .ok codes) :
      HandsOut d (.encodeQuad quad) quad.object codes.object
  | graph {quad : Quad} {codes : CodedQuad} {r : Resource} (hgraph : quad.graph = .named r)
      (h : (d.encodeQuad quad).answer = .ok codes) :
      HandsOut d (.encodeQuad quad) (.resource r) codes.graph

omit [Text.Hasher] in
/-- The steps of a successful answer. -/
lemma andThen_answer_eq_ok {α β : Type} {o : Outcome (Except DictionaryError α)}
    {next : α → TermDictionary → Outcome (Except DictionaryError β)} {b : β}
    (h : (o.andThen next).answer = .ok b) : ∃ a, o.answer = .ok a ∧
      (next a o.dictionary).answer = .ok b ∧
      (o.andThen next).dictionary = (next a o.dictionary).dictionary := by
  obtain ⟨answer, calls, e⟩ := o
  cases answer with
  | error error => cases h
  | ok a => exact ⟨a, rfl, h, rfl⟩

lemma Sound.represents_of_encodeGraph (hd : d.Sound) {r : Resource}
    (h : (d.encodeGraph (.named r)).answer = .ok code) :
    (d.encodeGraph (.named r)).dictionary.Represents (.resource r) code :=
  (hd.encode (.resource r)).2 code h

/-- A coded quad stands for its quad, component by component. -/
lemma Sound.represents_of_encodeQuad (hd : d.Sound) {quad : Quad} {codes : CodedQuad}
    (h : (d.encodeQuad quad).answer = .ok codes) :
    (d.encodeQuad quad).dictionary.Represents (.resource quad.subject) codes.subject ∧
    (d.encodeQuad quad).dictionary.Represents (.iri quad.predicate) codes.predicate ∧
    (d.encodeQuad quad).dictionary.Represents quad.object codes.object ∧
    ∀ r, quad.graph = .named r →
      (d.encodeQuad quad).dictionary.Represents (.resource r) codes.graph := by
  obtain ⟨subject, hsubject, h₁, heq₁⟩ := andThen_answer_eq_ok h
  obtain ⟨f₁, r₁⟩ := hd.encode (.resource quad.subject)
  obtain ⟨predicate, hpredicate, h₂, heq₂⟩ := andThen_answer_eq_ok h₁
  obtain ⟨f₂, r₂⟩ := f₁.sound.encode (.iri quad.predicate)
  obtain ⟨object, hobject, h₃, heq₃⟩ := andThen_answer_eq_ok h₂
  obtain ⟨f₃, r₃⟩ := f₂.sound.encode quad.object
  obtain ⟨graph, hgraph, h₄, heq₄⟩ := andThen_answer_eq_ok h₃
  have f₄ := f₃.sound.encodeGraph quad.graph
  obtain rfl := Except.ok.inj h₄
  have heq := ((heq₁.trans heq₂).trans heq₃).trans heq₄
  rw [TermDictionary.encodeQuad, heq]
  refine ⟨((f₂.trans f₃).trans f₄).represents (r₁ subject hsubject),
    (f₃.trans f₄).represents (r₂ predicate hpredicate), f₄.represents (r₃ object hobject), ?_⟩
  intro r hr
  rw [hr] at hgraph ⊢
  exact f₃.sound.represents_of_encodeGraph hgraph

/-- **A code that is handed out stands for its term.** -/
theorem HandsOut.represents {request : Request} (h : d.HandsOut request t code) (hd : d.Sound) :
    (d.serve request).Represents t code := by
  cases h with
  | encode h => exact (hd.encode _).2 _ h
  | tryEncode h => exact (hd.tryEncode _).2 _ h
  | encodeGraph h => exact hd.represents_of_encodeGraph h
  | subject h => exact (hd.represents_of_encodeQuad h).1
  | predicate h => exact (hd.represents_of_encodeQuad h).2.1
  | object h => exact (hd.represents_of_encodeQuad h).2.2.1
  | graph hgraph h => exact (hd.represents_of_encodeQuad h).2.2.2 _ hgraph

/-! ## A run of requests -/

/-- Every run keeps what is known at its start. -/
theorem Sound.serveAll (hd : d.Sound) (requests : List Request) :
    d.Follows (d.serveAll requests) := by
  induction requests generalizing d with
  | nil => exact hd.follows
  | cons request requests ih =>
    have hfirst := hd.serve request
    exact hfirst.trans (ih hfirst.sound)

/-- What a dictionary answers about a term and its code. -/
structure Binds (d : TermDictionary) (t : Term) (code : Code) : Prop where
  decode : (d.decode code).answer = .ok t
  encode : (d.encode t).answer = .ok code
  tryEncode : (d.tryEncode t).answer = some code
  /-- No request hands the code out for another term. -/
  only : ∀ {request other}, d.HandsOut request other code → other = t

/-- A term and its code are bound to each other. -/
lemma Represents.binds (h : d.Represents t code) (hd : d.Sound) : d.Binds t code where
  decode := h.decode hd
  encode := h.encode hd
  tryEncode := h.tryEncode hd
  only := by
    intro request other hother
    have hfollows := hd.serve request
    have hdecode := (hother.represents hd).decode hfollows.sound
    have hown := (hfollows.represents h).decode hfollows.sound
    exact Except.ok.inj (hdecode.symm.trans hown)

/-- **A code that has been handed out for a term is its code for good.**  Encoding the term is one
way to get it (`HandsOut.encode`).  Whatever a dictionary has been asked for before, and whatever it
or its forks are asked for later, the code is decoded to the term, the term is encoded to the code,
and no other term gets it. -/
theorem handsOut_permanent (config : Config) (before : List Request) {request : Request} {t : Term}
    {code : Code} (h : ((create config).serveAll before).HandsOut request t code)
    (later : List Request) :
    ((create config).serveAll (before ++ request :: later)).Binds t code := by
  have hbefore := (create_sound config).serveAll before
  have hserve := hbefore.sound.serve request
  have hlater := hserve.sound.serveAll later
  rw [TermDictionary.serveAll, List.foldl_append]
  exact (hlater.represents (h.represents hbefore.sound)).binds hlater.sound

end TermDictionary

/-- A blank node without identifier, between a refused code and a fork. -/
theorem TermDictionary.handsOut_permanent_blank :
    ((create {}).serveAll ([.decode ⟨5⟩, .encode (.iri ⟨"a:b"⟩)] ++ .encode (.blank "") ::
      [.fork, .encode (.blank "c")])).Binds (.blank "") ⟨3⟩ :=
  handsOut_permanent {} [.decode ⟨5⟩, .encode (.iri ⟨"a:b"⟩)] (.encode (by decide +kernel))
    [.fork, .encode (.blank "c")]

end QuadBase.Dictionary
