import QuadBase.Dictionary.Basic

/-!
# Quads in codes

A quad is encoded component by component: subject, predicate, object, graph.  The default graph has
the null code.  Decoding goes in the same order and checks that each term is allowed where it
stands, so the first component at fault decides the failure.

* `TermDictionary.encodeQuad`, `TermDictionary.decodeQuad` — the codec of quads.
* `TermDictionary.encodeGraph`, `TermDictionary.decodeGraph` — the codec of graph names.
-/

namespace QuadBase.Dictionary

open QuadBase.Rdf

/-- The failure of a term that is not allowed where it stands. -/
def unexpected (position : Position) (expected : TermClass) (found : Term) : DictionaryError :=
  .unexpectedTerm position expected found.text

/-- A term as a resource, where one is called for. -/
def asResource (position : Position) : Term → Except DictionaryError Resource
  | .resource r => .ok r
  | t => .error (unexpected position .resource t)

/-- A term as an IRI, where one is called for. -/
def asIri (position : Position) : Term → Except DictionaryError Iri
  | .resource (.iri i) => .ok i
  | t => .error (unexpected position .iri t)

namespace TermDictionary

variable [Text.Hasher]

/-- Answers without counting or changing anything. -/
def answer {ρ : Type} (d : TermDictionary) (r : ρ) : Outcome ρ :=
  ⟨r, .none, d⟩

/-- The code of a graph name. -/
def encodeGraph (d : TermDictionary) : GraphName → Outcome (Except DictionaryError Code)
  | .defaultGraph => d.answer (.ok .null)
  | .named r => d.encode (.resource r)

/-- The resource behind a code, where one is called for. -/
def decodeResource (d : TermDictionary) (position : Position) (code : Code) :
    Outcome (Except DictionaryError Resource) :=
  (d.decode code).andThen fun t d => d.answer (asResource position t)

/-- The IRI behind a code, where one is called for. -/
def decodeIri (d : TermDictionary) (position : Position) (code : Code) :
    Outcome (Except DictionaryError Iri) :=
  (d.decode code).andThen fun t d => d.answer (asIri position t)

def decodeGraph (d : TermDictionary) (code : Code) : Outcome (Except DictionaryError GraphName) :=
  if code.isNull then d.answer (.ok .defaultGraph)
  else (d.decodeResource .graph code).andThen fun r d => d.answer (.ok (.named r))

def encodeQuad (d : TermDictionary) (q : Quad) : Outcome (Except DictionaryError CodedQuad) :=
  (d.encode (.resource q.subject)).andThen fun subject d =>
  (d.encode (.iri q.predicate)).andThen fun predicate d =>
  (d.encode q.object).andThen fun object d =>
  (d.encodeGraph q.graph).andThen fun graph d =>
    d.answer (.ok ⟨subject, predicate, object, graph⟩)

def decodeQuad (d : TermDictionary) (c : CodedQuad) : Outcome (Except DictionaryError Quad) :=
  (d.decodeResource .subject c.subject).andThen fun subject d =>
  (d.decodeIri .predicate c.predicate).andThen fun predicate d =>
  (d.decode c.object).andThen fun object d =>
  (d.decodeGraph c.graph).andThen fun graph d =>
    d.answer (.ok ⟨subject, predicate, object, graph⟩)

end TermDictionary

end QuadBase.Dictionary
