import Mathlib.Algebra.BigOperators.Group.Finset.Piecewise
import Mathlib.Data.Nat.ModEq
import QuadBase.Proofs.Dictionary.Cache

/-!
# Caches as one row of slots

A cache of some capacity is meant to be a row of that many slots, the hash of a key selecting the
one at its remainder.  How the row is dealt out to shards is nobody's concern.  For that, two
computations have to agree, whatever the capacity and the number of shards are: the sizes of the
shards come from a rounded division, and the place of a slot from a remainder and a quotient.

* `lt_shardSize_iff` — a place is in its shard exactly if there is a slot for it, and
  `sum_shardSize` — all slots are dealt out.
* `Dealt` — the shards have these sizes, and `Dealt.isRow` — so their places are the slots.
* `entryAt?` — the row of slots, with `entryAt?_create` and `Dealt.entryAt?_insert`.
* `remembered?` — what a direct-mapped cache answers, in terms of past insertions alone.
* `create_directMapped` — **every cache answers so, whatever the number of shards.**
-/

namespace QuadBase.Dictionary.Cache

variable {κ ν : Type} {c : Cache κ ν} {capacity count shard : Nat}

/-! ## Dealing out the slots -/

/-- The number of slots of a shard. -/
def shardSize (capacity count shard : Nat) : Nat :=
  (capacity + count - 1 - shard) / count

/-- A place is in a shard exactly if the row has a slot for it. -/
lemma lt_shardSize_iff (hshard : shard < count) {place : Nat} :
    place < shardSize capacity count shard ↔ place * count + shard < capacity := by
  have hpos : 0 < count := by omega
  rw [shardSize, ← Nat.succ_le_iff, Nat.le_div_iff_mul_le hpos, Nat.succ_mul]
  omega

/-- One more slot is for the shard whose turn it is. -/
lemma shardSize_succ (hshard : shard < count) :
    shardSize (capacity + 1) count shard =
      shardSize capacity count shard + if capacity % count = shard then 1 else 0 := by
  have hturn : count ∣ capacity + count - 1 - shard + 1 ↔ capacity % count = shard := by
    rw [show capacity + count - 1 - shard + 1 = capacity + count - shard by omega,
      ← Nat.modEq_iff_dvd' (by omega), Nat.ModEq, Nat.mod_eq_of_lt hshard, Nat.add_mod_right,
      eq_comm]
  rw [shardSize, show capacity + 1 + count - 1 - shard = capacity + count - 1 - shard + 1 by omega,
    Nat.succ_div, shardSize]
  simp only [hturn]

/-- **All slots are dealt out.** -/
lemma sum_shardSize (hpos : 0 < count) (capacity : Nat) :
    ∑ shard ∈ Finset.range count, shardSize capacity count shard = capacity := by
  induction capacity with
  | zero =>
    refine Finset.sum_eq_zero fun shard _ => ?_
    rw [shardSize]
    exact Nat.div_eq_of_lt (by omega)
  | succ capacity ih =>
    have hturn : capacity % count ∈ Finset.range count := Finset.mem_range.2 (Nat.mod_lt _ hpos)
    rw [Finset.sum_congr rfl fun shard hshard => shardSize_succ (Finset.mem_range.1 hshard),
      Finset.sum_add_distrib, ih, Finset.sum_ite_eq, if_pos hturn]

/-- The shards have the sizes that the capacity asks for. -/
structure Dealt (c : Cache κ ν) : Prop where
  count_pos : 0 < c.shards.size
  count_le : c.shards.size ≤ max c.capacity 1
  size_eq : ∀ shard slots, c.shards[shard]? = some slots →
    slots.size = shardSize c.capacity c.shards.size shard

lemma size_create (capacity wish : Nat) :
    (create capacity wish : Cache κ ν).shards.size = shardCount capacity wish := by
  simp [create]

lemma create_dealt (capacity wish : Nat) : (create capacity wish : Cache κ ν).Dealt where
  count_pos := by
    rw [size_create, shardCount]
    omega
  count_le := by
    rw [size_create, shardCount]
    exact max_le (le_max_right _ _) (min_le_right _ _)
  size_eq shard slots h := by
    rw [size_create]
    simp only [create, Array.getElem?_map, Option.map_eq_some_iff] at h
    obtain ⟨number, hnumber, rfl⟩ := h
    obtain ⟨hlt, rfl⟩ := Array.getElem?_eq_some_iff.1 hnumber
    simp [shardSize, create]

lemma capacity_insert (c : Cache κ ν) (hash : Nat) (key : κ) (value : ν) :
    (c.insert hash key value).capacity = c.capacity := by
  rw [insert]
  split <;> rfl

lemma size_insert (c : Cache κ ν) (hash : Nat) (key : κ) (value : ν) :
    (c.insert hash key value).shards.size = c.shards.size := by
  rw [insert]
  split
  · rfl
  · exact Array.size_modify

lemma Dealt.insert (h : c.Dealt) (hash : Nat) (key : κ) (value : ν) :
    (c.insert hash key value).Dealt where
  count_pos := by
    rw [size_insert]
    exact h.count_pos
  count_le := by
    rw [size_insert, capacity_insert]
    exact h.count_le
  size_eq number slots hslots := by
    rw [size_insert, capacity_insert]
    rw [Cache.insert] at hslots
    split at hslots
    next => exact h.size_eq number slots hslots
    next shard place hlocate =>
      rw [Array.getElem?_modify] at hslots
      split at hslots
      next =>
        obtain ⟨old, hold, rfl⟩ := Option.map_eq_some_iff.1 hslots
        rw [Array.size_setIfInBounds]
        exact h.size_eq number old hold
      next => exact h.size_eq number slots hslots

/-- The number of slots of all shards. -/
def slotCount (c : Cache κ ν) : Nat :=
  (c.shards.toList.map Array.size).sum

lemma Dealt.slotCount_eq (h : c.Dealt) : c.slotCount = c.capacity := by
  have hsizes : c.shards.toList.map Array.size =
      (List.range c.shards.size).map (shardSize c.capacity c.shards.size) := by
    refine List.ext_getElem (by simp) fun shard hshard _ => ?_
    rw [List.length_map, Array.length_toList] at hshard
    simpa using h.size_eq shard _ (Array.getElem?_eq_getElem hshard)
  rw [slotCount, hsizes]
  exact sum_shardSize h.count_pos c.capacity

/-- **Every slot has its place.** -/
lemma Dealt.exists_place (h : c.Dealt) {slot : Nat} (hslot : slot < c.capacity) :
    ∃ slots, c.shards[slot % c.shards.size]? = some slots ∧ slot / c.shards.size < slots.size := by
  have hshard : slot % c.shards.size < c.shards.size := Nat.mod_lt slot h.count_pos
  have hslots := Array.getElem?_eq_getElem hshard
  refine ⟨_, hslots, ?_⟩
  rw [h.size_eq _ _ hslots, lt_shardSize_iff hshard, Nat.mul_comm, Nat.div_add_mod]
  exact hslot

lemma locate?_of_capacity_pos (hpos : 0 < c.capacity) (hash : Nat) :
    c.locate? hash =
      some (hash % c.capacity % c.shards.size, hash % c.capacity / c.shards.size) := by
  rw [locate?, if_neg (by omega)]

/-- Slots do not share a place. -/
lemma locate?_eq_locate?_iff (hpos : 0 < c.capacity) {hash other : Nat} :
    c.locate? hash = c.locate? other ↔ hash % c.capacity = other % c.capacity := by
  rw [locate?_of_capacity_pos hpos, locate?_of_capacity_pos hpos, Option.some_inj, Prod.mk.injEq]
  constructor
  · rintro ⟨hshard, hplace⟩
    rw [← Nat.div_add_mod (hash % c.capacity) c.shards.size, hshard, hplace, Nat.div_add_mod]
  · rintro heq
    exact ⟨by rw [heq], by rw [heq]⟩

/-- The places of a cache are the slots of one row. -/
structure IsRow (c : Cache κ ν) (capacity : Nat) : Prop where
  /-- There are no more shards than slots, except that without slots there is one shard. -/
  count_le : c.shards.size ≤ max capacity 1
  /-- There are as many places as slots. -/
  slotCount_eq : c.slotCount = capacity
  /-- A hash has a place as soon as there are slots. -/
  locate?_eq_none_iff : ∀ hash, c.locate? hash = none ↔ capacity = 0
  /-- No access is out of range. -/
  exists_place : ∀ hash shard place, c.locate? hash = some (shard, place) →
    ∃ slots, c.shards[shard]? = some slots ∧ place < slots.size
  /-- Two slots never share a place. -/
  locate?_eq_iff : ∀ hash other, c.locate? hash = c.locate? other ↔
    capacity = 0 ∨ hash % capacity = other % capacity

lemma Dealt.isRow (h : c.Dealt) : c.IsRow c.capacity := by
  rcases Nat.eq_zero_or_pos c.capacity with hzero | hpos
  · have hnone : ∀ hash, c.locate? hash = none := fun hash => by rw [locate?, if_pos hzero]
    exact ⟨h.count_le, h.slotCount_eq, by simp [hnone, hzero], by simp [hnone],
      by simp [hnone, hzero]⟩
  · have hsome := fun hash => locate?_of_capacity_pos hpos hash
    refine ⟨h.count_le, h.slotCount_eq, fun hash => ?_, fun hash shard place hlocate => ?_,
      fun hash other => ?_⟩
    · simp [hsome, Nat.ne_of_gt hpos]
    · rw [hsome] at hlocate
      obtain ⟨rfl, rfl⟩ := Prod.mk.inj (Option.some.inj hlocate)
      exact h.exists_place (Nat.mod_lt hash hpos)
    · rw [locate?_eq_locate?_iff hpos, or_iff_right (Nat.ne_of_gt hpos)]

/-! ## The row -/

/-- The entry in a slot of the row. -/
def entryAt? (c : Cache κ ν) (slot : Nat) : Option (κ × ν) :=
  (c.shards[slot % c.shards.size]?.bind (·[slot / c.shards.size]?)).join

lemma entryAt?_create (capacity wish slot : Nat) :
    (create capacity wish : Cache κ ν).entryAt? slot = none := by
  rw [Option.eq_none_iff_forall_ne_some]
  rintro ⟨key, value⟩ hentry
  obtain ⟨slots, hslots, hplace⟩ := Option.bind_eq_some_iff.1 (Option.join_eq_some_iff.1 hentry)
  exact not_keeps_create capacity wish
    ⟨slots, Array.mem_of_getElem? hslots, Array.mem_of_getElem? hplace⟩

/-- A cache answers from one slot of the row. -/
lemma find?_eq (hpos : 0 < c.capacity) (hash : Nat) (same : κ → Bool) :
    c.find? hash same =
      ((c.entryAt? (hash % c.capacity)).filter fun entry => same entry.1).map Prod.snd := by
  rw [find?, locate?_of_capacity_pos hpos, entryAt?]
  dsimp only
  cases c.shards[hash % c.capacity % c.shards.size]?.bind
      (·[hash % c.capacity / c.shards.size]?) with
  | none => rfl
  | some entry =>
    rcases entry with _ | ⟨key, value⟩
    · rfl
    · simp only [Option.join_some, Option.filter_some]
      split <;> rfl

/-- **An insertion replaces the entry of one slot of the row.** -/
lemma Dealt.entryAt?_insert (h : c.Dealt) (hash : Nat) (key : κ) (value : ν) {slot : Nat}
    (hslot : slot < c.capacity) : (c.insert hash key value).entryAt? slot =
      if hash % c.capacity = slot then some (key, value) else c.entryAt? slot := by
  have hlocate := locate?_of_capacity_pos (c := c) (by omega) hash
  obtain ⟨slots, hslots, hplace⟩ := h.exists_place hslot
  rw [Cache.insert, hlocate]
  obtain ⟨shards, capacity⟩ := c
  dsimp only [entryAt?] at hslots hplace ⊢
  rw [Array.size_modify, Array.getElem?_modify, hslots]
  split
  next hshard =>
    rw [Option.map_some, Option.bind_some, Option.bind_some]
    split
    next heq =>
      rw [heq, Array.getElem?_setIfInBounds_self_of_lt hplace]
      rfl
    next hne =>
      rw [Array.getElem?_setIfInBounds_ne]
      intro hdiv
      refine hne ?_
      rw [← Nat.div_add_mod (hash % capacity) shards.size, hshard, hdiv, Nat.div_add_mod]
  next hshard =>
    rw [if_neg]
    rintro rfl
    exact hshard rfl

/-! ## A row and its past -/

/-- What is asked of a cache. -/
inductive Call (κ ν : Type) where
  | find (hash : Nat) (same : κ → Bool)
  | insert (hash : Nat) (key : κ) (value : ν)

/-- The cache after some calls.  Finding leaves it as it is. -/
def after (c : Cache κ ν) : List (Call κ ν) → Cache κ ν
  | [] => c
  | .find _ _ :: calls => c.after calls
  | .insert hash key value :: calls => (c.insert hash key value).after calls

/-- The answers of a cache. -/
def answers (c : Cache κ ν) : List (Call κ ν) → List (Option ν)
  | [] => []
  | .find hash same :: calls => c.find? hash same :: c.answers calls
  | .insert hash key value :: calls => (c.insert hash key value).answers calls

/-- What a direct-mapped cache answers after insertions, the last of which comes first: the value of
the last one at this slot, if its key is the `same`. -/
def remembered? (capacity : Nat) (past : List (Nat × κ × ν)) (hash : Nat) (same : κ → Bool) :
    Option ν :=
  if capacity = 0 then none
  else match past.find? fun entry => entry.1 % capacity = hash % capacity with
    | some (_, key, value) => if same key then some value else none
    | none => none

/-- The answers of a direct-mapped cache after insertions, the last of which comes first. -/
def rememberedAnswers (capacity : Nat) (past : List (Nat × κ × ν)) :
    List (Call κ ν) → List (Option ν)
  | [] => []
  | .find hash same :: calls =>
    remembered? capacity past hash same :: rememberedAnswers capacity past calls
  | .insert hash key value :: calls =>
    rememberedAnswers capacity ((hash, key, value) :: past) calls

/-- Every slot of the row holds the last insertion there. -/
structure Remembers (c : Cache κ ν) (capacity : Nat) (past : List (Nat × κ × ν)) : Prop where
  dealt : c.Dealt
  capacity_eq : c.capacity = capacity
  entryAt?_eq : ∀ slot < capacity, c.entryAt? slot =
    (past.find? fun entry => entry.1 % capacity = slot).map Prod.snd

variable {past : List (Nat × κ × ν)}

lemma create_remembers (capacity wish : Nat) :
    (create capacity wish : Cache κ ν).Remembers capacity [] where
  dealt := create_dealt capacity wish
  capacity_eq := rfl
  entryAt?_eq slot _ := entryAt?_create capacity wish slot

lemma Remembers.insert (h : c.Remembers capacity past) (hash : Nat) (key : κ) (value : ν) :
    (c.insert hash key value).Remembers capacity ((hash, key, value) :: past) where
  dealt := h.dealt.insert hash key value
  capacity_eq := (capacity_insert c hash key value).trans h.capacity_eq
  entryAt?_eq slot hslot := by
    obtain rfl := h.capacity_eq
    rw [h.dealt.entryAt?_insert hash key value hslot, List.find?_cons, h.entryAt?_eq slot hslot]
    by_cases heq : hash % c.capacity = slot <;> simp [heq]

lemma Remembers.find?_eq (h : c.Remembers capacity past) (hash : Nat) (same : κ → Bool) :
    c.find? hash same = remembered? capacity past hash same := by
  obtain rfl := h.capacity_eq
  rw [remembered?]
  split
  next hzero => rw [find?, locate?, if_pos hzero]
  next hpos =>
    have hlt : hash % c.capacity < c.capacity := Nat.mod_lt hash (by omega)
    rw [Cache.find?_eq (by omega), h.entryAt?_eq _ hlt]
    cases past.find? fun entry => entry.1 % c.capacity = hash % c.capacity with
    | none => rfl
    | some entry =>
      obtain ⟨_, key, value⟩ := entry
      simp only [Option.map_some, Option.filter_some]
      split <;> rfl

lemma Remembers.answers_eq (h : c.Remembers capacity past) (calls : List (Call κ ν)) :
    c.answers calls = rememberedAnswers capacity past calls := by
  induction calls generalizing c past with
  | nil => rfl
  | cons call calls ih =>
    cases call with
    | find hash same => rw [answers, rememberedAnswers, h.find?_eq, ih h]
    | insert hash key value => exact ih (h.insert hash key value)

lemma Dealt.after (h : c.Dealt) (calls : List (Call κ ν)) :
    (c.after calls).Dealt ∧ (c.after calls).capacity = c.capacity := by
  induction calls generalizing c with
  | nil => exact ⟨h, rfl⟩
  | cons call calls ih =>
    cases call with
    | find hash same => exact ih h
    | insert hash key value =>
      have hrest := ih (h.insert hash key value)
      rwa [capacity_insert] at hrest

/-- **A cache is a direct-mapped cache of its capacity**, whatever the number of shards: it answers
from the last insertion at the slot of a hash, and without slots not at all.  Dealing out the slots
to shards neither loses one nor puts two into one place. -/
theorem create_directMapped (capacity wish : Nat) (calls : List (Call κ ν)) :
    let c : Cache κ ν := create capacity wish
    c.answers calls = rememberedAnswers capacity [] calls ∧
      (∀ other, (create capacity other).answers calls = c.answers calls) ∧
      (c.after calls).IsRow capacity := by
  intro c
  have hanswers : ∀ wish, (create capacity wish).answers calls =
      rememberedAnswers capacity [] calls := fun wish =>
    (create_remembers capacity wish).answers_eq calls
  obtain ⟨hdealt, hcapacity⟩ := (create_dealt (κ := κ) (ν := ν) capacity wish).after calls
  refine ⟨hanswers wish, fun other => (hanswers other).trans (hanswers wish).symm, ?_⟩
  rw [show capacity = (c.after calls).capacity from hcapacity.symm]
  exact hdealt.isRow

/-- Seven slots in three shards.  The hashes 1 and 8 are for the same slot. -/
example : (create 7 3 : Cache String Nat).answers
    [.insert 1 "a" 1, .find 1 (· == "a"), .insert 8 "b" 2, .find 1 (· == "a"), .find 8 (· == "b")] =
      [some 1, none, some 2] := by decide +kernel

end QuadBase.Dictionary.Cache
