import QuadBase.Store.Basic
import Std.Data.HashSet

/-!
# Questions to a store

Numbers of quads, the distinct components of the quads of a pattern, the only object of a pattern,
and the part of a store that a pattern selects.

* `QuadStore.count` — the number of quads of a pattern, `QuadStore.estimate` — an upper bound that
  visits none.
* `distinct` — a list without its repetitions; `mem_distinct` and `distinct_nodup` say that it is.
* `QuadStore.objectValue` and its relatives — the object that all quads of a pattern share.
* `QuadStore.filter` — a new store with the quads of a pattern.
-/

namespace QuadBase.Store

open QuadBase.Rdf

/-- The members of a list, each once, in no particular order. -/
def distinct {α : Type} [BEq α] [Hashable α] (xs : List α) : List α :=
  (Std.HashSet.ofList xs).toList

theorem mem_distinct {α : Type} [BEq α] [LawfulBEq α] [Hashable α] {xs : List α} {x : α} :
    x ∈ distinct xs ↔ x ∈ xs := by
  rw [distinct, Std.HashSet.mem_toList, Std.HashSet.mem_ofList, List.contains_iff_mem]

theorem distinct_nodup {α : Type} [BEq α] [LawfulBEq α] [Hashable α] (xs : List α) :
    (distinct xs).Nodup :=
  Std.HashSet.distinct_toList.imp fun h heq => by simp [heq] at h

namespace QuadStore

variable [Text.Hasher]

/-! ## Numbers -/

def count (s : QuadStore) (p : Pattern) : Nat :=
  if p.isWildcard then s.size else (s.quads p).length

/-- An upper bound of `count` that visits no quad. -/
def estimate (s : QuadStore) (p : Pattern) : Nat :=
  (s.legs p).foldl (fun total leg => total + leg.estimate s.statements) 0

/-! ## Projections -/

/-- The distinct subjects of the quads of a pattern. -/
def subjects (s : QuadStore) (p : Pattern) : List Resource :=
  distinct ((s.quads p).map Quad.subject)

def predicates (s : QuadStore) (p : Pattern) : List Iri :=
  distinct ((s.quads p).map Quad.predicate)

def objects (s : QuadStore) (p : Pattern) : List Term :=
  distinct ((s.quads p).map Quad.object)

def graphs (s : QuadStore) (p : Pattern) : List GraphName :=
  distinct ((s.quads p).map Quad.graph)

/-! ## The only object -/

/-- The object that all quads of a pattern share, none if there is no quad. -/
def objectValue (s : QuadStore) (p : Pattern) : Except StoreError (Option Term) :=
  match (s.quads p).map Quad.object with
  | [] => .ok none
  | first :: rest =>
    match rest.find? (· != first) with
    | none => .ok (some first)
    | some second => .error (.ambiguousObject first.text second.text)

/-- The only object, converted to what is asked for. -/
def objectAs {α : Type} (s : QuadStore) (p : Pattern) (expected : TermClass)
    (convert : Term → Option α) : Except StoreError (Option α) :=
  match s.objectValue p with
  | .error e => .error e
  | .ok none => .ok none
  | .ok (some object) =>
    match convert object with
    | some a => .ok (some a)
    | none => .error (.unexpectedObject expected object.text)

/-- The only object, which has to be a literal. -/
def objectLiteral (s : QuadStore) (p : Pattern) : Except StoreError (Option Literal) :=
  s.objectAs p .literal fun
    | .literal l => some l
    | .resource _ => none

/-- The only object, which has to be an IRI or a blank node. -/
def objectResource (s : QuadStore) (p : Pattern) : Except StoreError (Option Resource) :=
  s.objectAs p .resource fun
    | .resource r => some r
    | .literal _ => none

/-- The only object, which has to be an IRI. -/
def objectIri (s : QuadStore) (p : Pattern) : Except StoreError (Option Iri) :=
  s.objectAs p .iri fun
    | .resource (.iri i) => some i
    | _ => none

/-- The string inside the only object. -/
def objectString (s : QuadStore) (p : Pattern) : Except StoreError (Option String) :=
  (s.objectValue p).map fun object => object.map Term.content

/-! ## Filtering -/

/-- A new store with the quads of a pattern, and with the configuration and the abbreviations of
this one. -/
def filter (s : QuadStore) (p : Pattern) : Change Unit :=
  andThen ((create s.config).extend (s.quads p)) fun _ copy =>
    (.ok (), { copy with namespaces := s.namespaces })

end QuadStore

end QuadBase.Store
