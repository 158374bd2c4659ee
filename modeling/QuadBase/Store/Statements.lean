import QuadBase.Index.Probing
import QuadBase.Store.Error
import QuadBase.Store.PerPosition
import QuadBase.Text.Hash

/-!
# The statements of a store

A statement is a record of four handles.  For every handle and every position there is a *chain*: a
list, linked through the records, of the statements with that handle in that position, newest first,
together with a count of the live ones.  An open-addressed index finds the record of four
handles.

Removing a statement only makes its record a *tombstone*: it stays linked until there are as many
tombstones as live statements.  Then a sweep unlinks all of them at once and frees their numbers for
later statements.  Unlinked records keep their own links, so a walk that stands on one of them can
go on.

* `Statements.insert`, `Statements.remove`, `Statements.clear` — the changes.
* `Statements.find?` — the record of four handles.
* `Statements.chain` — the records of a chain in order.
-/

namespace QuadBase.Store

open QuadBase.Index QuadBase.Rdf

structure Statement where
  /-- The handles, none for a tombstone. -/
  terms : Option (PerPosition Nat)
  /-- The next record in the chain of each position. -/
  next : PerPosition (Option Nat)
  deriving DecidableEq

def Statement.isLive (s : Statement) : Bool :=
  s.terms.isSome

/-- The start of a chain and the number of its live records. -/
structure Chain where
  head : Option Nat := none
  count : Nat := 0
  deriving DecidableEq

/-- Records, their chains and their index. -/
structure Statements where
  records : Array Statement
  /-- The chains of each handle. -/
  chains : Array (PerPosition Chain)
  index : Array (Slot Nat)
  /-- The number of index slots that are not empty. -/
  used : Nat
  /-- The number of live records. -/
  live : Nat
  /-- Unlinked records that can be used again, the last one first. -/
  free : Array Nat
  /-- Tombstones that are still linked. -/
  zombies : Array Nat

namespace Statements

variable [Text.Hasher]

/-- Record numbers are below this bound. -/
def capacity : Nat := Nat.pow 2 32 - 2

def noChains : PerPosition Chain :=
  .all {}

/-- No statements, and `handles` handles. -/
def create (expected handles : Nat) : Statements :=
  { records := #[]
    chains := Array.replicate handles noChains
    index := emptySlots (powerOfTwoFrom (max expected 8 * 3 / 2))
    used := 0
    live := 0
    free := #[]
    zombies := #[] }

/-- The hash by which the index finds four handles. -/
def hashTerms (terms : PerPosition Nat) : Nat :=
  let part (handle : Nat) : Text.Part := .word (UInt32.ofNat handle)
  (Text.Hasher.hash
    [part terms.subject, part terms.predicate, part terms.object, part terms.graph]).toNat

/-- The handles of a record, none for a tombstone. -/
def terms? (s : Statements) (id : Nat) : Option (PerPosition Nat) :=
  s.records[id]?.bind Statement.terms

def search (s : Statements) (terms : PerPosition Nat) : Probe Nat :=
  probe s.index (hashTerms terms) fun id => s.terms? id == some terms

/-- The live record of four handles. -/
def find? (s : Statements) (terms : PerPosition Nat) : Option Nat :=
  match s.search terms with
  | .found _ id => some id
  | _ => none

def chainAt (s : Statements) (handle : Nat) (p : Position) : Chain :=
  (s.chains[handle]?.getD noChains).get p

/-- The record behind `id` in the chains of a position. -/
def nextOf (records : Array Statement) (p : Position) (id : Nat) : Option Nat :=
  records[id]?.bind fun record => record.next.get p

/-- The records of a chain from `start` on, at most `steps` of them. -/
def follow (records : Array Statement) (p : Position) :
    (steps : Nat) → (start : Option Nat) → List Nat
  | 0, _ => []
  | _, none => []
  | steps + 1, some id => id :: follow records p steps (nextOf records p id)

/-- The records of a chain in order, tombstones included.  A chain meets no record twice, so their
number is bound enough. -/
def chain (s : Statements) (handle : Nat) (p : Position) : List Nat :=
  follow s.records p s.records.size (s.chainAt handle p).head

/-- Provides chains for handles below `handles`. -/
def reserve (s : Statements) (handles : Nat) : Statements :=
  let ⟨records, chains, index, used, live, free, zombies⟩ := s
  let chains := Nat.repeat (Array.push · noChains) (handles - chains.size) chains
  ⟨records, chains, index, used, live, free, zombies⟩

/-! ## Insertion -/

/-- Enters all live records into `count` slots. -/
def enterAll (records : Array Statement) (count : Nat) : Array (Slot Nat) :=
  (records.foldl (fun (index, id) record =>
    match record.terms with
    | some terms => (place index (hashTerms terms) id, id + 1)
    | none => (index, id + 1)) (emptySlots count, 0)).1

/-- The size of the next index: twice the old one if the live statements and one more exceed a third
of it. -/
def rebuiltSize (live count : Nat) : Nat :=
  if count < (live + 1) * 3 then 2 * count else count

/-- Enters the live records anew, which drops all deletion markers. -/
def rebuildIndex (s : Statements) : Statements :=
  let ⟨records, chains, index, _, live, free, zombies⟩ := s
  ⟨records, chains, enterAll records (rebuiltSize live index.size), live, live, free, zombies⟩

/-- Makes sure that the search of new handles ends at a slot that can be taken: `position`, or, if
taking it would crowd the index, a slot of a rebuilt one. -/
def makeRoom (s : Statements) (terms : PerPosition Nat) (position : Nat) : Statements × Nat :=
  if s.index[position]? = some .empty ∧ isCrowded (s.used + 1) s.index.size then
    let s := s.rebuildIndex
    let position := (vacant? s.index (hashTerms terms)).getD 0
    (s, position)
  else (s, position)

/-- The number for a new record: the last freed one, or one that has never been used. -/
def takeNumber (s : Statements) : Option Nat × Statements :=
  let ⟨records, chains, index, used, live, free, zombies⟩ := s
  match free.back? with
  | some id => (some id, ⟨records, chains, index, used, live, free.pop, zombies⟩)
  | none =>
    let id := records.size
    (if id < capacity then some id else none,
      ⟨records, chains, index, used, live, free, zombies⟩)

/-- Puts a record in front of a chain. -/
def Chain.link (id : Nat) (c : Chain) : Chain :=
  ⟨some id, c.count + 1⟩

/-- Puts a record in front of the chains of its four handles. -/
def linkAll (chains : Array (PerPosition Chain)) (terms : PerPosition Nat) (id : Nat) :
    Array (PerPosition Chain) :=
  terms.toList.foldl (fun chains (p, handle) =>
    chains.modify handle (·.modify p (Chain.link id))) chains

/-- Stores a record under its number. -/
def putRecord (records : Array Statement) (id : Nat) (record : Statement) : Array Statement :=
  if id < records.size then records.setIfInBounds id record else records.push record

/-- Adds a statement under the number `id`, with its index entry at `position`. -/
def enter (s : Statements) (terms : PerPosition Nat) (id position : Nat) : Statements :=
  let next : PerPosition (Option Nat) :=
    ⟨(s.chainAt terms.subject .subject).head, (s.chainAt terms.predicate .predicate).head,
      (s.chainAt terms.object .object).head, (s.chainAt terms.graph .graph).head⟩
  let ⟨records, chains, index, used, live, free, zombies⟩ := s
  let used := if index[position]? = some .empty then used + 1 else used
  { records := putRecord records id ⟨some terms, next⟩
    chains := linkAll chains terms id
    index := index.setIfInBounds position (.entry id)
    used
    live := live + 1
    free
    zombies }

/-- Adds a statement, unless it is there.  Tells whether it was added.  The case of a search without
an end is never met (`Indexed.search_ne_exhausted`), so an error says that no number is left. -/
def insert (s : Statements) (terms : PerPosition Nat) : Except StoreError Bool × Statements :=
  match s.search terms with
  | .found _ _ => (.ok false, s)
  | .exhausted => (.error (.capacityExceeded .statements capacity), s)
  | .vacant position =>
    let (s, position) := s.makeRoom terms position
    match s.takeNumber with
    | (none, s) => (.error (.capacityExceeded .statements capacity), s)
    | (some id, s) => (.ok true, s.enter terms id position)

/-! ## Removal -/

def setNext (records : Array Statement) (p : Position) (id : Nat) (next : Option Nat) :
    Array Statement :=
  records.modify id fun record => { record with next := record.next.set p next }

/-- Whether a record is there and no tombstone. -/
def isLiveAt (records : Array Statement) (id : Nat) : Bool :=
  records[id]?.any Statement.isLive

/-- Unlinks the tombstones of a chain from `current` on.  `previous` is the last live record passed,
and `head` the first one so far.  Gives the head and the relinked records. -/
def sweepFrom (p : Position) :
    (steps : Nat) → (previous current head : Option Nat) → Array Statement →
      Option Nat × Array Statement
  | 0, _, _, head, records => (head, records)
  | _, _, none, head, records => (head, records)
  | steps + 1, previous, some id, head, records =>
    let next := nextOf records p id
    if isLiveAt records id then sweepFrom p steps (some id) next head records
    else match previous with
      | none => sweepFrom p steps none next next records
      | some last => sweepFrom p steps previous next head (setNext records p last next)

/-- Unlinks the tombstones of the chain of a position. -/
def sweepChain (chains : PerPosition Chain) (records : Array Statement) (p : Position) :
    PerPosition Chain × Array Statement :=
  let head := (chains.get p).head
  let (head, records) := sweepFrom p records.size none head head records
  (chains.modify p fun c => { c with head }, records)

/-- Unlinks the tombstones of the four chains of a handle. -/
def sweepHandle (chains : PerPosition Chain) (records : Array Statement) :
    PerPosition Chain × Array Statement :=
  [Position.subject, .predicate, .object, .graph].foldl
    (fun (chains, records) p => sweepChain chains records p) (chains, records)

/-- Unlinks all tombstones and frees their numbers. -/
def sweep (s : Statements) : Statements :=
  let ⟨records, chains, index, used, live, free, zombies⟩ := s
  let (chains, records) := chains.foldl (fun (done, records) chains =>
    let (chains, records) := sweepHandle chains records
    (done.push chains, records)) (#[], records)
  ⟨records, chains, index, used, live, free ++ zombies, #[]⟩

/-- Counts the removal of four handles. -/
def discountAll (chains : Array (PerPosition Chain)) (terms : PerPosition Nat) :
    Array (PerPosition Chain) :=
  terms.toList.foldl (fun chains (p, handle) =>
    chains.modify handle (·.modify p fun c => { c with count := c.count - 1 })) chains

/-- Makes a live record a tombstone and its index entry, at `position`, a deletion marker. -/
def bury (s : Statements) (terms : PerPosition Nat) (id position : Nat) : Statements :=
  let ⟨records, chains, index, used, live, free, zombies⟩ := s
  { records := records.modify id fun record => { record with terms := none }
    chains := discountAll chains terms
    index := index.setIfInBounds position .deleted
    used
    live := live - 1
    free
    zombies := zombies.push id }

/-- Removes a live record, sweeping if the tombstones are then as many as the live records.  Tells
whether there was something to remove. -/
def remove (s : Statements) (id : Nat) : Bool × Statements :=
  match s.terms? id with
  | none => (false, s)
  | some terms =>
    match s.search terms with
    | .found position found =>
      if found = id then
        let s := s.bury terms id position
        (true, if s.live ≤ s.zombies.size then s.sweep else s)
      else (false, s)
    | _ => (false, s)

/-- Drops all statements.  Handles stay. -/
def clear (s : Statements) : Statements :=
  { records := #[]
    chains := Array.replicate s.chains.size noChains
    index := emptySlots s.index.size
    used := 0
    live := 0
    free := #[]
    zombies := #[] }

end Statements

end QuadBase.Store
