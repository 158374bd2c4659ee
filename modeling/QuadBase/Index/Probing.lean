/-!
# Open addressing

A hash table is an array of slots.  A search starts at the slot that the hash selects and goes
on to the next one, around the end of the array, until it meets what it looks for or an empty slot.
A *deletion marker* does not stop a search, but the first one on the way is where an insertion
may go.

A search takes at most one step per slot.  `Probe.exhausted` is the answer of a search that came
around without meeting an empty slot; tables grow in time for that never to happen.

* `probe` — the search, `vacant?` — the search for an empty slot alone.
* `place` — enters a value at the first empty slot of its search.
* `probe_found_mem` — what is found is in the table and is what was looked for.
-/

namespace QuadBase.Index

/-- A place of a hash table. -/
inductive Slot (α : Type) where
  | empty
  /-- An entry was here.  Searches go on behind it. -/
  | deleted
  | entry (value : α)
  deriving DecidableEq

/-- Whether a search ends at this slot. -/
def Slot.isEmpty {α : Type} : Slot α → Bool
  | .empty => true
  | _ => false

/-- The answer of a search. -/
inductive Probe (α : Type) where
  /-- The slot and the entry that were looked for. -/
  | found (position : Nat) (value : α)
  /-- There is no such entry, and it may be inserted in this slot. -/
  | vacant (position : Nat)
  /-- The search came around without meeting an empty slot. -/
  | exhausted

variable {α : Type}

/-- The slot behind `position`, around the end of an array of `count` slots. -/
def nextPosition (count position : Nat) : Nat :=
  if position + 1 = count then 0 else position + 1

/-- The rest of a search, `steps` slots at most.  `reusable` is the first deletion marker met. -/
@[specialize] def probeFrom (slots : Array (Slot α)) (same : α → Bool) :
    (steps position : Nat) → (reusable : Option Nat) → Probe α
  | 0, _, _ => .exhausted
  | steps + 1, position, reusable =>
    match slots[position]? with
    | none => .exhausted
    | some .empty => .vacant (reusable.getD position)
    | some .deleted =>
      probeFrom slots same steps (nextPosition slots.size position) (reusable.or (some position))
    | some (.entry value) =>
      if same value then .found position value
      else probeFrom slots same steps (nextPosition slots.size position) reusable

/-- Searches for an entry that is the `same`. -/
@[inline] def probe (slots : Array (Slot α)) (hash : Nat) (same : α → Bool) : Probe α :=
  probeFrom slots same slots.size (hash % slots.size) none

/-- The rest of a search for an empty slot. -/
def vacantFrom? (slots : Array (Slot α)) : (steps position : Nat) → Option Nat
  | 0, _ => none
  | steps + 1, position =>
    match slots[position]? with
    | none => none
    | some .empty => some position
    | some _ => vacantFrom? slots steps (nextPosition slots.size position)

/-- The first empty slot of a search. -/
def vacant? (slots : Array (Slot α)) (hash : Nat) : Option Nat :=
  vacantFrom? slots slots.size (hash % slots.size)

/-- Enters a value at the first empty slot of its search. -/
def place (slots : Array (Slot α)) (hash : Nat) (value : α) : Array (Slot α) :=
  match vacant? slots hash with
  | some position => slots.setIfInBounds position (.entry value)
  | none => slots

/-- An array of empty slots. -/
def emptySlots (count : Nat) : Array (Slot α) :=
  Array.replicate count .empty

/-- The least power of two that is not below `n`.  Numbers of slots are natural numbers here and have
no greatest one.  A machine has no array for a wish above `2 ^ 63`, where the next power of two is no
word any more, so nothing is lost by not stopping there. -/
def powerOfTwoFrom (n : Nat) : Nat :=
  if n ≤ 1 then 1 else Nat.pow 2 ((n - 1).log2 + 1)

/-- Whether `occupied` slots are more than two thirds of `count`. -/
def isCrowded (occupied count : Nat) : Bool :=
  count * 2 < occupied * 3

/-- The number of slots at which searches do not end. -/
def occupied (slots : Array (Slot α)) : Nat :=
  slots.countP (!·.isEmpty)

theorem probeFrom_found_mem {slots : Array (Slot α)} {same : α → Bool} {steps start position : Nat}
    {reusable : Option Nat} {value : α}
    (h : probeFrom slots same steps start reusable = .found position value) :
    slots[position]? = some (.entry value) ∧ same value = true := by
  induction steps generalizing start reusable with
  | zero => cases h
  | succ steps ih =>
    rw [probeFrom] at h
    split at h
    next => cases h
    next => cases h
    next => exact ih h
    next v hv =>
      split at h
      next hs =>
        obtain ⟨rfl, rfl⟩ := Probe.found.inj h
        exact ⟨hv, hs⟩
      next => exact ih h

/-- What a search finds is in the table, and is what was looked for. -/
theorem probe_found_mem {slots : Array (Slot α)} {hash position : Nat} {same : α → Bool} {value : α}
    (h : probe slots hash same = .found position value) :
    slots[position]? = some (.entry value) ∧ same value = true :=
  probeFrom_found_mem h

end QuadBase.Index
