/-!
# Direct-mapped caches

A cache has a fixed number of slots.  The hash of a key selects the slot, and a new entry takes the
place of the old one.  The slots are dealt out to *shards* in turn, so that shard `i % shards` keeps
slot `i` in its place `i / shards`; with a lock per shard, neighbouring slots would not contend.

* `Cache.find?` — the value kept under a key.
* `Cache.insert` — replaces whatever the slot held.
-/

namespace QuadBase.Dictionary

/-- A direct-mapped cache from keys to values. -/
structure Cache (κ ν : Type) where
  shards : Array (Array (Option (κ × ν)))
  /-- The number of slots.  A cache without slots keeps nothing. -/
  capacity : Nat

namespace Cache

variable {κ ν : Type}

/-- The number of shards for a capacity and a wish: at least one, and no more than there are
slots. -/
def shardCount (capacity wish : Nat) : Nat :=
  max 1 (min wish (max capacity 1))

/-- An empty cache. -/
def create (capacity wish : Nat) : Cache κ ν :=
  let count := shardCount capacity wish
  { shards := (Array.range count).map fun shard =>
      Array.replicate ((capacity + count - 1 - shard) / count) none
    capacity }

/-- The shard and the place in it for a hash. -/
def locate? (c : Cache κ ν) (hash : Nat) : Option (Nat × Nat) :=
  if c.capacity = 0 then none
  else
    let slot := hash % c.capacity
    some (slot % c.shards.size, slot / c.shards.size)

/-- The value in the slot of a hash, if its key is the `same`. -/
@[inline] def find? (c : Cache κ ν) (hash : Nat) (same : κ → Bool) : Option ν :=
  match c.locate? hash with
  | none => none
  | some (shard, place) =>
    match c.shards[shard]?.bind (·[place]?) with
    | some (some (key, value)) => if same key then some value else none
    | _ => none

/-- Puts a key and its value into the slot of a hash. -/
def insert (c : Cache κ ν) (hash : Nat) (key : κ) (value : ν) : Cache κ ν :=
  match c.locate? hash with
  | none => c
  | some (shard, place) =>
    let ⟨shards, capacity⟩ := c
    ⟨shards.modify shard (·.setIfInBounds place (some (key, value))), capacity⟩

end Cache

end QuadBase.Dictionary
