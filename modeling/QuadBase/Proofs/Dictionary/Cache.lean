import Mathlib.Tactic.Common
import QuadBase.Dictionary.Cache

/-!
# What a cache can answer

A cache answers with what was put into it, or not at all.  Which of its entries have been replaced
does not matter for that, so `Cache.Keeps` forgets the slots.
-/

namespace QuadBase.Dictionary.Cache

variable {κ ν : Type} {c : Cache κ ν} {hash : Nat} {key k : κ} {value v : ν}

/-- A slot of the cache holds this key with this value. -/
def Keeps (c : Cache κ ν) (key : κ) (value : ν) : Prop :=
  ∃ shard ∈ c.shards, some (key, value) ∈ shard

lemma not_keeps_create (capacity wish : Nat) :
    ¬ (create capacity wish : Cache κ ν).Keeps key value := by
  rintro ⟨shard, hshard, hentry⟩
  obtain ⟨i, -, rfl⟩ := Array.mem_map.1 hshard
  simp at hentry

/-- What a cache answers has been put into it. -/
lemma keeps_of_find? {same : κ → Bool} (h : c.find? hash same = some value) :
    ∃ key, same key = true ∧ c.Keeps key value := by
  rw [find?] at h
  split at h
  · cases h
  · split at h
    next place key found hentry =>
      split at h
      next hsame =>
        obtain rfl := Option.some.inj h
        obtain ⟨shard, hshard, hplace⟩ := Option.bind_eq_some_iff.1 hentry
        exact ⟨key, hsame, shard, Array.mem_of_getElem? hshard, Array.mem_of_getElem? hplace⟩
      next => cases h
    · cases h

/-- A new entry is all that an insertion adds. -/
lemma keeps_of_insert (h : (c.insert hash key value).Keeps k v) :
    (k = key ∧ v = value) ∨ c.Keeps k v := by
  rw [insert] at h
  split at h
  · exact Or.inr h
  next number place hlocate =>
    obtain ⟨shard, hshard, hentry⟩ := h
    obtain ⟨i, hi⟩ := Array.mem_iff_getElem?.1 hshard
    rw [Array.getElem?_modify] at hi
    split at hi
    next =>
      obtain ⟨old, hold, rfl⟩ := Option.map_eq_some_iff.1 hi
      obtain ⟨j, hj⟩ := Array.mem_iff_getElem?.1 hentry
      rw [Array.getElem?_setIfInBounds] at hj
      split at hj
      next =>
        split at hj
        next =>
          left
          simpa [eq_comm] using hj
        next => cases hj
      next => exact Or.inr ⟨old, Array.mem_of_getElem? hold, Array.mem_of_getElem? hj⟩
    next => exact Or.inr ⟨shard, Array.mem_of_getElem? hi, hentry⟩

end QuadBase.Dictionary.Cache
