import QuadBase.Store.Basic

/-!
# Walking and removing at once

A *walk* visits the records of some legs one by one.  It keeps only where it will read next, so the
store may change between two steps as long as no record is added: removals leave the links of their
records usable.

A *cursor* is a walk over the store that it may remove from: the quad that it stands on can be
removed once.

* `Walk.advance` — the next record.
* `Cursor.next` — moves on, `Cursor.remove` — removes the quad the cursor stands on.
-/

namespace QuadBase.Store

open QuadBase.Rdf

/-- Where a walk will read next. -/
inductive Step where
  /-- The way to the records of the leg is still to be chosen. -/
  | start
  /-- A scan, at a record number. -/
  | scan (next : Nat)
  /-- A chain, at a record of it or at its end. -/
  | chain (position : Position) (next : Option Nat)
  deriving DecidableEq

/-- A walk over the records of some legs. -/
structure Walk where
  /-- The legs to go, the one under way first. -/
  legs : List Leg
  step : Step

namespace Walk

def create (legs : List Leg) : Walk :=
  ⟨legs, .start⟩

/-- The first record of a leg in a scan of `count` records from `next` on, and where to go on. -/
def seekScan (leg : Leg) (records : Array Statement) : (count next : Nat) → Option (Nat × Step)
  | 0, _ => none
  | count + 1, next =>
    if leg.admitsAt records next then some (next, .scan (next + 1))
    else seekScan leg records count (next + 1)

/-- The first record of a leg in a chain from `current` on, and where to go on.  At most `steps`
records are passed. -/
def seekChain (leg : Leg) (records : Array Statement) (p : Position) :
    (steps : Nat) → (current : Option Nat) → Option (Nat × Step)
  | 0, _ => none
  | _, none => none
  | steps + 1, some id =>
    let next := Statements.nextOf records p id
    if leg.admitsAt records id then some (id, .chain p next)
    else seekChain leg records p steps next

/-- The step with which an access begins. -/
def begin (access : Access) : Step :=
  match access with
  | .scan => .scan 0
  | .chain p head => .chain p head

/-- The next record of a leg from a step on, and the step after it. -/
def seek (leg : Leg) (s : Statements) : Step → Option (Nat × Step)
  | .start => seekBegun (begin (leg.access s))
  | step => seekBegun step
where
  /-- The next record once the way is chosen. -/
  seekBegun : Step → Option (Nat × Step)
    | .start => none
    | .scan next => seekScan leg s.records (s.records.size - next) next
    | .chain p next => seekChain leg s.records p s.records.size next

/-- The next record from a step in the first of some legs on, and the walk after it. -/
def advanceFrom (s : Statements) : (legs : List Leg) → Step → Option Nat × Walk
  | [], step => (none, ⟨[], step⟩)
  | leg :: legs, step =>
    match seek leg s step with
    | some (id, step) => (some id, ⟨leg :: legs, step⟩)
    | none => advanceFrom s legs .start

/-- The next record and the walk after it. -/
def advance (w : Walk) (s : Statements) : Option Nat × Walk :=
  advanceFrom s w.legs w.step

end Walk

/-- A walk over a store with the record it stands on. -/
structure Cursor where
  store : QuadStore
  walk : Walk
  /-- The record that can be removed. -/
  current : Option Nat

namespace Cursor

variable [Text.Hasher]

/-- A cursor in front of the first quad of a pattern. -/
def create (s : QuadStore) (p : Pattern) : Cursor :=
  ⟨s, Walk.create (s.legs p), none⟩

def next (c : Cursor) : Option Quad × Cursor :=
  let ⟨store, walk, _⟩ := c
  let (current, walk) := walk.advance store.statements
  (current.bind store.quad?, ⟨store, walk, current⟩)

/-- Removes the quad that the last move found, unless that has been done.  Tells whether something
was removed. -/
def remove (c : Cursor) : Bool × Cursor :=
  let ⟨store, walk, current⟩ := c
  match current with
  | none => (false, ⟨store, walk, none⟩)
  | some id =>
    let (removed, store) := store.removeId id
    (removed, ⟨store, walk, none⟩)

end Cursor

end QuadBase.Store
