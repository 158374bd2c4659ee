import QuadBase.Store.Statements
import QuadBase.Store.Terms

/-!
# Planning a query

A pattern is resolved into *legs*, one for each distinct graph it lists, or one for any graph.  A
leg binds positions to handles.  Handles are only looked up: if a term is unknown to the store, no
statement can match and there is no leg.

Each leg is answered from the chain of the bound handle with the fewest live records, or by a scan
of all records if it binds nothing.

* `Leg.resolve` — the legs of a pattern.
* `Leg.access` — the way to the records of a leg.
* `Leg.matching` — the live records of a leg, `Leg.estimate` — a bound on their number.
-/

namespace QuadBase.Store

open QuadBase.Rdf

variable [Text.Hasher]

/-- Handles for some of the positions. -/
abbrev Leg : Type := PerPosition (Option Nat)

/-- A way to a superset of the wanted records. -/
inductive Access where
  | scan
  /-- The chain of a handle in a position. -/
  | chain (position : Position) (head : Option Nat)
  deriving DecidableEq

/-- The handle that an optional component asks for.  The outer answer is none if the component is a
term without a handle. -/
def bindHandle (terms : TermTable) : Option Term → Option (Option Nat)
  | none => some none
  | some term => (terms.handle? term).map some

namespace Leg

def resolve (pattern : Pattern) (terms : TermTable) : List Leg :=
  let legs? : Option (List Leg) := do
    let subject ← bindHandle terms (pattern.subject.map .resource)
    let predicate ← bindHandle terms (pattern.predicate.map Term.iri)
    let object ← bindHandle terms pattern.object
    if pattern.graphs.isEmpty then some [⟨subject, predicate, object, none⟩]
    else
      let graphs := (pattern.graphs.filterMap terms.graphHandle?).eraseDups
      some (graphs.map fun graph => (⟨subject, predicate, object, some graph⟩ : Leg))
  legs?.getD []

/-- Whether a record is live and agrees with every bound handle. -/
def admits (leg : Leg) (s : Statement) : Bool :=
  match s.terms with
  | none => false
  | some terms =>
    (leg.zipWith (fun bound handle => bound.all (· == handle)) terms).toList.all (·.2)

/-- The bound positions in order, each with the chain of its handle. -/
def boundChains (leg : Leg) (s : Statements) : List (Position × Chain) :=
  leg.toList.filterMap fun (p, bound) => bound.map fun handle => (p, s.chainAt handle p)

/-- The first of the chains with the lowest count. -/
def cheapest : List (Position × Chain) → Option (Position × Chain)
  | [] => none
  | entry :: rest =>
    match cheapest rest with
    | none => some entry
    | some other => if other.2.count < entry.2.count then some other else some entry

/-- The way to the records of a leg. -/
def access (leg : Leg) (s : Statements) : Access :=
  match cheapest (leg.boundChains s) with
  | none => .scan
  | some (p, c) => .chain p c.head

/-- The number of live records that the access visits. -/
def estimate (leg : Leg) (s : Statements) : Nat :=
  match cheapest (leg.boundChains s) with
  | none => s.live
  | some (_, c) => c.count

/-- The records on the way of an access. -/
def visited (s : Statements) : Access → List Nat
  | .scan => List.range s.records.size
  | .chain p head => Statements.follow s.records p s.records.size head

/-- Whether the record with a number is live and agrees with every bound handle. -/
def admitsAt (leg : Leg) (records : Array Statement) (id : Nat) : Bool :=
  records[id]?.any leg.admits

def matching (leg : Leg) (s : Statements) : List Nat :=
  (visited s (leg.access s)).filter (leg.admitsAt s.records)

end Leg

def matchingAll (legs : List Leg) (s : Statements) : List Nat :=
  legs.flatMap fun leg => Leg.matching leg s

end QuadBase.Store
