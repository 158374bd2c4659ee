import QuadBase.Rdf.Term

/-!
# Quads and patterns

A *quad* is a statement (subject, predicate, object) in a graph.  The types of its components say
what RDF allows: the subject is a resource, the predicate an IRI, the graph is the default one or
named by a resource, and only the object may be a literal.

A *pattern* leaves some components open.  Its list of graphs is a disjunction, and the empty list
stands for any graph.

* `Pattern.admits` — whether a quad is an instance of a pattern.
* `Pattern.admits_of_isWildcard` — a pattern that binds nothing admits every quad.
-/

namespace QuadBase.Rdf

/-- One of the four components of a quad. -/
inductive Position where
  | subject
  | predicate
  | object
  | graph
  deriving DecidableEq, Inhabited

def Position.words : Position → String
  | .subject => "subject"
  | .predicate => "predicate"
  | .object => "object"
  | .graph => "graph name"

/-- A statement in a graph. -/
structure Quad where
  subject : Resource
  predicate : Iri
  object : Term
  graph : GraphName
  deriving DecidableEq

/-- A quad as it is written in N-Quads, without the closing dot. -/
def Quad.text (q : Quad) : String :=
  let statement := q.subject.text ++ " <" ++ q.predicate.text ++ "> " ++ q.object.text
  match q.graph with
  | .defaultGraph => statement
  | .named r => statement ++ " " ++ r.text

/-- A quad some of whose components are open. -/
structure Pattern where
  subject : Option Resource := none
  predicate : Option Iri := none
  object : Option Term := none
  /-- The graphs that are allowed, any if the list is empty. -/
  graphs : List GraphName := []

namespace Pattern

/-- Whether no component is bound. -/
def isWildcard (p : Pattern) : Bool :=
  p.subject.isNone && p.predicate.isNone && p.object.isNone && p.graphs.isEmpty

/-- Whether `q` agrees with every bound component and lies in an allowed graph. -/
def admits (p : Pattern) (q : Quad) : Bool :=
  p.subject.all (· == q.subject) && p.predicate.all (· == q.predicate) &&
    p.object.all (· == q.object) && (p.graphs.isEmpty || p.graphs.contains q.graph)

theorem admits_of_isWildcard {p : Pattern} (h : p.isWildcard) (q : Quad) : p.admits q := by
  simp only [isWildcard, Bool.and_eq_true, Option.isNone_iff_eq_none] at h
  obtain ⟨⟨⟨hs, hp⟩, ho⟩, hg⟩ := h
  simp [admits, hs, hp, ho, hg]

end Pattern

end QuadBase.Rdf
