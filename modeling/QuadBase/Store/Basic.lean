import QuadBase.Store.Audit
import QuadBase.Store.Plan
import Std.Data.TreeMap

/-!
# The quad store

A store keeps a set of quads in memory, and finds the quads of a pattern without looking at all of
them.  Its terms are kept once, its statements by handle.  It also remembers abbreviations of
namespaces, which have no bearing on the quads.

* `QuadStore.add`, `QuadStore.insert`, `QuadStore.extend` — put quads in.
* `QuadStore.remove`, `QuadStore.removeQuad`, `QuadStore.clear` — take quads out.
* `QuadStore.quads` — the quads of a pattern, `QuadStore.contains` — whether a quad is there.
-/

namespace QuadBase.Store

open QuadBase.Rdf

/-- The sizes that a store is created with, the numbers of terms and statements that are expected.
They are natural numbers without a bound, though no machine has tables for the greatest of its
words: a store of such a size cannot be created, and answers nothing. -/
structure Config where
  terms : Nat := 256
  statements : Nat := 256
  deriving DecidableEq

instance : Inhabited Config := ⟨{}⟩

/-- A set of quads, indexed in all positions. -/
structure QuadStore where
  config : Config
  terms : TermTable
  statements : Statements
  /-- Namespaces by abbreviation. -/
  namespaces : Std.TreeMap String String

namespace QuadStore

variable [Text.Hasher]

def create (config : Config) : QuadStore :=
  { config
    terms := TermTable.create config.terms
    statements := Statements.create config.statements 1
    namespaces := ∅ }

instance : Inhabited QuadStore := ⟨create default⟩

def size (s : QuadStore) : Nat :=
  s.statements.live

def isEmpty (s : QuadStore) : Bool :=
  s.size == 0

/-! ## Looking up -/

/-- The handles of a quad, if all its terms are known. -/
def handles? (s : QuadStore) (q : Quad) : Option (PerPosition Nat) := do
  let subject ← s.terms.handle? (.resource q.subject)
  let predicate ← s.terms.handle? (.iri q.predicate)
  let object ← s.terms.handle? q.object
  let graph ← s.terms.graphHandle? q.graph
  some ⟨subject, predicate, object, graph⟩

def find? (s : QuadStore) (q : Quad) : Option Nat :=
  (s.handles? q).bind s.statements.find?

def contains (s : QuadStore) (q : Quad) : Bool :=
  (s.find? q).isSome

/-- The quad of four handles.  Handles that are used as components of a quad have terms of the right
kind. -/
def quadOf? (terms : TermTable) (handles : PerPosition Nat) : Option Quad :=
  match terms.term? handles.subject, terms.term? handles.predicate, terms.term? handles.object,
      terms.graphName? handles.graph with
  | some (.resource subject), some (.resource (.iri predicate)), some object, some graph =>
    some ⟨subject, predicate, object, graph⟩
  | _, _, _, _ => none

def quad? (s : QuadStore) (id : Nat) : Option Quad :=
  (s.statements.terms? id).bind (quadOf? s.terms)

def legs (s : QuadStore) (p : Pattern) : List Leg :=
  Leg.resolve p s.terms

def ids (s : QuadStore) (p : Pattern) : List Nat :=
  matchingAll (s.legs p) s.statements

/-- The quads of a pattern, each once, in no particular order. -/
def quads (s : QuadStore) (p : Pattern) : List Quad :=
  (s.ids p).filterMap s.quad?

/-! ## Putting quads in -/

/-- The answer of a change and the store it left. -/
abbrev Change (α : Type) : Type := Except StoreError α × QuadStore

/-- The handle of a term, given out if the term is new. -/
def internTerm (s : QuadStore) (term : Term) : Change Nat :=
  let ⟨config, terms, statements, namespaces⟩ := s
  let (handle, terms) := terms.intern term
  let statements := statements.reserve terms.size
  (handle, ⟨config, terms, statements, namespaces⟩)

/-- The handle of a graph name, given out if the name is new. -/
def internGraph (s : QuadStore) : GraphName → Change Nat
  | .defaultGraph => (.ok TermTable.defaultGraph, s)
  | .named r => s.internTerm (.resource r)

/-- Adds the statement of four handles. -/
def insertHandles (s : QuadStore) (handles : PerPosition Nat) : Change Bool :=
  let ⟨config, terms, statements, namespaces⟩ := s
  let (added, statements) := statements.insert handles
  (added, ⟨config, terms, statements, namespaces⟩)

/-- Goes on with the value of a successful change. -/
@[inline] def andThen {α β : Type} (c : Change α) (next : α → QuadStore → Change β) : Change β :=
  match c with
  | (.error e, s) => (.error e, s)
  | (.ok a, s) => next a s

/-- Adds a statement to a graph. -/
def link (s : QuadStore) (subject predicate object : Nat) (graph : GraphName) : Change Bool :=
  andThen (s.internGraph graph) fun graph s => s.insertHandles ⟨subject, predicate, object, graph⟩

/-- Adds a statement to each of several graphs.  Tells whether one of the quads is new, or `changed`
has been so before. -/
def linkAll (s : QuadStore) (subject predicate object : Nat) (changed : Bool) :
    List GraphName → Change Bool
  | [] => (.ok changed, s)
  | graph :: graphs =>
    andThen (s.link subject predicate object graph) fun added s =>
      s.linkAll subject predicate object (changed || added) graphs

/-- Adds a statement to the given graphs, or to the default graph if none is given.  Tells whether
the store changed. -/
def add (s : QuadStore) (subject : Resource) (predicate : Iri) (object : Term)
    (graphs : List GraphName) : Change Bool :=
  andThen (s.internTerm (.resource subject)) fun subject s =>
  andThen (s.internTerm (.iri predicate)) fun predicate s =>
  andThen (s.internTerm object) fun object s =>
    s.linkAll subject predicate object false
      (if graphs.isEmpty then [.defaultGraph] else graphs)

/-- Adds a quad.  Tells whether it is new. -/
def insert (s : QuadStore) (q : Quad) : Change Bool :=
  s.add q.subject q.predicate q.object [q.graph]

/-- Adds quads one after the other, `count` new ones having been added before.  Tells how many were
new. -/
def extendFrom (s : QuadStore) (count : Nat) : List Quad → Change Nat
  | [] => (.ok count, s)
  | q :: qs =>
    andThen (s.insert q) fun added s => s.extendFrom (if added then count + 1 else count) qs

/-- Adds quads.  Tells how many were new. -/
def extend (s : QuadStore) (qs : List Quad) : Change Nat :=
  s.extendFrom 0 qs

/-! ## Taking quads out -/

/-- Removes the statement of a record.  Tells whether it was there. -/
def removeId (s : QuadStore) (id : Nat) : Bool × QuadStore :=
  let ⟨config, terms, statements, namespaces⟩ := s
  let (removed, statements) := statements.remove id
  (removed, ⟨config, terms, statements, namespaces⟩)

/-- Removes the statements of records one after the other. -/
def removeIds (s : QuadStore) (changed : Bool) : List Nat → Bool × QuadStore
  | [] => (changed, s)
  | id :: rest =>
    let (removed, s) := s.removeId id
    s.removeIds (removed || changed) rest

/-- Drops all quads.  Terms keep their handles. -/
def clear (s : QuadStore) : QuadStore :=
  let ⟨config, terms, statements, namespaces⟩ := s
  ⟨config, terms, statements.clear, namespaces⟩

/-- Removes the quads of a pattern.  Tells whether the store changed. -/
def remove (s : QuadStore) (p : Pattern) : Bool × QuadStore :=
  if p.isWildcard then (!s.isEmpty, s.clear)
  else
    let ids := s.ids p
    s.removeIds false ids

/-- Removes a quad.  Tells whether it was there. -/
def removeQuad (s : QuadStore) (q : Quad) : Bool × QuadStore :=
  match s.find? q with
  | some id => s.removeId id
  | none => (false, s)

/-! ## Health and abbreviations -/

/-- The first contradiction between the inner structures, if there is one. -/
def validate (s : QuadStore) : Except StoreError Unit :=
  s.statements.audit.mapError fun fault => .corruption fault.message

def namespace? (s : QuadStore) (abbreviation : String) : Option String :=
  s.namespaces[abbreviation]?

def setNamespace (s : QuadStore) (abbreviation space : String) : QuadStore :=
  { s with namespaces := s.namespaces.insert abbreviation space }

def eraseNamespace (s : QuadStore) (abbreviation : String) : QuadStore :=
  { s with namespaces := s.namespaces.erase abbreviation }

end QuadStore

end QuadBase.Store
