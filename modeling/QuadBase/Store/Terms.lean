import QuadBase.Index.Probing
import QuadBase.Store.Error

/-!
# The terms of a store

A store keeps every term once and knows it by a number, its *handle*.  Handles count up from one in
order of first use and are never given up; handle zero is the default graph.  An open-addressed
table finds the handle of a term.

When the table has to grow, all terms, the new one included, are entered into the larger table
before the new one is entered as usual.

* `TermTable.handle?` — the handle of a term.
* `TermTable.intern` — the handle of a term, given out if the term is new.
-/

namespace QuadBase.Store

open QuadBase.Index QuadBase.Rdf

/-- Terms numbered in order of first use. -/
structure TermTable where
  /-- The terms; handle `i` is at position `i - 1`. -/
  terms : Array Term
  slots : Array (Slot Nat)

namespace TermTable

variable [Text.Hasher]

def defaultGraph : Nat := 0

/-- Handles are below this bound. -/
def capacity : Nat := Nat.pow 2 32 - 2

/-- The number of slots for an expected number of entries. -/
def slotsFor (expected : Nat) : Nat :=
  powerOfTwoFrom (max expected 8 * 3 / 2)

def create (expected : Nat) : TermTable :=
  ⟨#[], emptySlots (slotsFor expected)⟩

/-- The number of handles, that of the default graph included. -/
def size (t : TermTable) : Nat :=
  t.terms.size + 1

/-- The term with a handle.  The default graph is no term. -/
def term? (t : TermTable) (handle : Nat) : Option Term :=
  if handle = defaultGraph then none else t.terms[handle - 1]?

def search (t : TermTable) (term : Term) : Probe Nat :=
  probe t.slots term.hash.toNat fun handle => t.term? handle == some term

def handle? (t : TermTable) (term : Term) : Option Nat :=
  match t.search term with
  | .found _ handle => some handle
  | _ => none

def graphHandle? (t : TermTable) : GraphName → Option Nat
  | .defaultGraph => some defaultGraph
  | .named r => t.handle? (.resource r)

/-- The graph name with a handle, if its term can name a graph. -/
def graphName? (t : TermTable) (handle : Nat) : Option GraphName :=
  if handle = defaultGraph then some .defaultGraph
  else match t.term? handle with
    | some (.resource r) => some (.named r)
    | _ => none

/-- Enters all terms into `count` slots. -/
def enterAll (terms : Array Term) (count : Nat) : Array (Slot Nat) :=
  (terms.foldl (fun (slots, handle) term =>
    (place slots term.hash.toNat handle, handle + 1)) (emptySlots count, 1)).1

/-- Adds a new term, whose search ended at `position`. -/
def add (t : TermTable) (term : Term) (position : Nat) : TermTable :=
  let ⟨terms, slots⟩ := t
  let terms := terms.push term
  if isCrowded (terms.size + 1) slots.size then
    let slots := enterAll terms (2 * slots.size)
    ⟨terms, place slots term.hash.toNat terms.size⟩
  else
    let slots := slots.setIfInBounds position (.entry terms.size)
    ⟨terms, slots⟩

/-- The handle of a term, which is given out if the term is new.  The last case is never met
(`TermTable.Sound.search_ne_exhausted`), so an error says that no handle is left. -/
def intern (t : TermTable) (term : Term) : Except StoreError Nat × TermTable :=
  match t.search term with
  | .found _ handle => (.ok handle, t)
  | .vacant position =>
    let handle := t.size
    if handle < capacity then (.ok handle, t.add term position)
    else (.error (.capacityExceeded .terms capacity), t)
  | .exhausted => (.error (.capacityExceeded .terms capacity), t)

/-- The handle of a graph name, which is given out if the name is new. -/
def internGraph (t : TermTable) : GraphName → Except StoreError Nat × TermTable
  | .defaultGraph => (.ok defaultGraph, t)
  | .named r => t.intern (.resource r)

end TermTable

end QuadBase.Store
