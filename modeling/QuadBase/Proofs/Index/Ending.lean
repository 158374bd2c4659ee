import QuadBase.Proofs.Index.Growing

/-!
# Searches end

The loops over the slots of a table have no counter.  They stay in the array by masking the position
with its size, which has to be a power of two for that, and go on until a slot stops them, which has
to be there.

* `Reaches` — such a loop as it runs: from where, in how many steps, and to which slot.
* `Searchable` — a power of two of slots, one of which is empty.
* `Searchable.searchesEnd` — **in such an array every loop ends within one pass over the slots**,
  and `probe` and `vacant?` answer what the loop has met.
* `Spacious` — a power of two of slots of which at most two thirds are taken.
* `Filled.spacious`, `Roomy.spacious` — where spacious arrays come from: tables that grow in time,
  and the larger arrays that are filled when they grow.
-/

namespace QuadBase.Index

variable {α : Type} {slots : Array (Slot α)} {hash : Nat} {same : α → Bool} {hashOf : α → Nat}

/-! ## Loops without a counter -/

/-- A loop over the slots, from a position on.  It stops at `last`, the slot of its step number
`steps`. -/
inductive Reaches (slots : Array (Slot α)) (stops : Slot α → Bool) :
    (position steps last : Nat) → Prop where
  | here {position : Nat} {s : Slot α} (slot : slots[position]? = some s) (stop : stops s = true) :
      Reaches slots stops position 1 position
  | onward {position steps last : Nat} {s : Slot α} (slot : slots[position]? = some s)
      (pass : stops s = false)
      (rest : Reaches slots stops ((position + 1) &&& (slots.size - 1)) steps last) :
      Reaches slots stops position (steps + 1) last

/-- Whether the search for an entry that is the `same` stops at a slot. -/
def Slot.answers (same : α → Bool) : Slot α → Bool
  | .empty => true
  | .deleted => false
  | .entry value => same value

/-- A search that stopped at `last` may answer this. -/
inductive Probe.StoppedAt (slots : Array (Slot α)) (last : Nat) : Probe α → Prop where
  | found {value : α} (entry : slots[last]? = some (.entry value)) :
      Probe.StoppedAt slots last (.found last value)
  | vacant (position : Nat) (empty : slots[last]? = some .empty) :
      Probe.StoppedAt slots last (.vacant position)

/-- **Every loop over the slots ends within one pass**, whatever is looked for. -/
structure SearchesEnd (slots : Array (Slot α)) : Prop where
  probe : ∀ hash same, ∃ steps ≤ slots.size, ∃ last,
    Reaches slots (Slot.answers same) (hash &&& (slots.size - 1)) steps last ∧
      (probe slots hash same).StoppedAt slots last
  vacant : ∀ hash, ∃ steps ≤ slots.size, ∃ last,
    Reaches slots Slot.isEmpty (hash &&& (slots.size - 1)) steps last ∧
      vacant? slots hash = some last

/-- Masking with a power of two is going around the array. -/
lemma mask_eq_mod {size : Nat} (h : size.isPowerOfTwo) (position : Nat) :
    position &&& (size - 1) = position % size := by
  obtain ⟨k, rfl⟩ := h
  exact Nat.and_two_pow_sub_one_eq_mod position k

/-- A loop gets from step `d` to step `e` of a path if no slot in between stops it. -/
lemma reaches_visited (h : slots.size.isPowerOfTwo) {stops : Slot α → Bool} {d e : Nat}
    (hle : d ≤ e) {s : Slot α} (hlast : slots[visited slots hash e]? = some s)
    (hstop : stops s = true) (hpass : ∀ k, d ≤ k → k < e →
      ∃ s, slots[visited slots hash k]? = some s ∧ stops s = false) :
    Reaches slots stops (visited slots hash d) (e - d + 1) (visited slots hash e) := by
  obtain ⟨n, rfl⟩ := Nat.exists_eq_add_of_le hle
  rw [Nat.add_sub_cancel_left]
  induction n generalizing d with
  | zero => exact .here hlast hstop
  | succ n ih =>
    obtain ⟨first, hslot, hfirst⟩ := hpass d (le_refl d) (by omega)
    have hnext : (visited slots hash d + 1) &&& (slots.size - 1) = visited slots hash (d + 1) := by
      rw [mask_eq_mod h, visited, visited, Nat.mod_add_mod, Nat.add_assoc]
    have hend : d + 1 + n = d + (n + 1) := by omega
    refine .onward hslot hfirst ?_
    rw [hnext, ← hend]
    exact ih (by omega) (hend ▸ hlast) fun k hk hk' => hpass k (by omega) (by omega)

/-! ## Arrays that can be searched -/

/-- A power of two of slots, one of which is empty. -/
structure Searchable (slots : Array (Slot α)) : Prop where
  size_isPowerOfTwo : slots.size.isPowerOfTwo
  empty_mem : .empty ∈ slots

lemma Searchable.size_pos (h : Searchable slots) : 0 < slots.size :=
  Nat.pos_of_isPowerOfTwo h.size_isPowerOfTwo

lemma Slot.answers_eq_false {s : Slot α} (h : GoesPast same s) : s.answers same = false := by
  cases s with
  | empty => exact absurd h id
  | deleted => rfl
  | entry value => exact h

/-- **Where a slot is empty every search ends.** -/
theorem Searchable.searchesEnd (h : Searchable slots) : SearchesEnd slots where
  probe hash same := by
    have hends := probe_ends h.size_pos hash same
    have hnot := probe_ne_exhausted h.empty_mem hash same
    have hreach : ∀ {e s}, e < 0 + slots.size → slots[visited slots hash e]? = some s →
        s.answers same = true → Passes slots same hash 0 e →
        e + 1 ≤ slots.size ∧ Reaches slots (Slot.answers same) (hash &&& (slots.size - 1)) (e + 1)
          (visited slots hash e) := by
      intro e s hlt hslot hstop hpasses
      refine ⟨by omega, ?_⟩
      rw [mask_eq_mod h.size_isPowerOfTwo]
      refine reaches_visited h.size_isPowerOfTwo (Nat.zero_le e) hslot hstop ?_
      intro k hk hk'
      obtain ⟨s, hs, hpast⟩ := hpasses k hk hk'
      exact ⟨s, hs, Slot.answers_eq_false hpast⟩
    cases hanswer : Index.probe slots hash same with
    | found position value =>
      rw [hanswer] at hends
      cases hends with
      | found e value lower upper passes entry isSame =>
        obtain ⟨hsteps, hloop⟩ := hreach upper entry isSame passes
        exact ⟨e + 1, hsteps, _, hloop, .found entry⟩
    | vacant position =>
      rw [hanswer] at hends
      cases hends with
      | vacant e position lower upper passes empty free =>
        obtain ⟨hsteps, hloop⟩ := hreach upper empty rfl passes
        exact ⟨e + 1, hsteps, _, hloop, .vacant position empty⟩
    | exhausted => exact absurd hanswer hnot
  vacant hash := by
    obtain ⟨position, hvacant, hempty, d, hd, rfl, hbefore⟩ := vacant?_eq_some h.empty_mem hash
    refine ⟨d + 1, hd, _, ?_, hvacant⟩
    rw [mask_eq_mod h.size_isPowerOfTwo]
    refine reaches_visited h.size_isPowerOfTwo (Nat.zero_le d) hempty rfl ?_
    intro k _ hk
    have hlt : visited slots hash k < slots.size := visited_lt h.size_pos k
    refine ⟨_, Array.getElem?_eq_getElem hlt, ?_⟩
    cases hslot : slots[visited slots hash k] with
    | empty => exact absurd (by rw [Array.getElem?_eq_getElem hlt, hslot]) (hbefore k hk)
    | deleted => rfl
    | entry => rfl

/-! ## Spacious arrays -/

/-- A power of two of slots, at most two thirds of them taken.  Deletion markers count as taken. -/
structure Spacious (slots : Array (Slot α)) : Prop where
  size_isPowerOfTwo : slots.size.isPowerOfTwo
  load : occupied slots * 3 ≤ slots.size * 2

lemma Spacious.size_pos (h : Spacious slots) : 0 < slots.size :=
  Nat.pos_of_isPowerOfTwo h.size_isPowerOfTwo

lemma Spacious.searchable (h : Spacious slots) : Searchable slots := by
  have hpos := h.size_pos
  have hload := h.load
  exact ⟨h.size_isPowerOfTwo, occupied_lt_size_iff.1 (by omega)⟩

/-! ## Where they come from -/

lemma isPowerOfTwo_powerOfTwoFrom (n : Nat) : (powerOfTwoFrom n).isPowerOfTwo := by
  rw [powerOfTwoFrom]
  split
  · exact Nat.isPowerOfTwo_one
  · exact ⟨_, rfl⟩

lemma isPowerOfTwo_double {n : Nat} (h : n.isPowerOfTwo) : (2 * n).isPowerOfTwo := by
  rw [Nat.mul_comm]
  exact Nat.isPowerOfTwo_mul_two_of_isPowerOfTwo h

/-- Few values that are entered into empty slots leave enough of them. -/
lemma Filled.spacious [DecidableEq α] {size : Nat} {values : List α} {filled : Array (Slot α)}
    (h : Filled hashOf (emptySlots size) values filled) (hsize : size.isPowerOfTwo)
    (hfew : values.length * 3 ≤ size * 2) : Spacious filled := by
  have hcount := h.size_eq
  have hload := h.occupied_eq
  rw [size_emptySlots] at hcount
  rw [occupied_emptySlots, Nat.zero_add] at hload
  exact ⟨hcount.symm ▸ hsize, by rwa [hload, hcount]⟩

lemma Roomy.spacious {count : Nat} (h : Roomy hashOf slots count)
    (hsize : slots.size.isPowerOfTwo) : Spacious slots :=
  ⟨hsize, Nat.le_trans (Nat.mul_le_mul_right 3 h.load) h.uncrowded⟩

/-- A table that grows in time keeps a power of two of slots. -/
lemma Roomy.isPowerOfTwo_entered {count : Nat} (h : Roomy hashOf slots count)
    (hsize : slots.size.isPowerOfTwo) (position : Nat) (value : α) :
    (entered hashOf slots count position value).size.isPowerOfTwo := by
  rw [h.size_entered]
  split
  · exact isPowerOfTwo_double hsize
  · exact hsize

/-! ## Growing step by step -/

lemma size_place (slots : Array (Slot α)) (hash : Nat) (value : α) :
    (place slots hash value).size = slots.size := by
  rw [place]
  split
  · exact Array.size_setIfInBounds
  · rfl

/-- Going through items keeps the number of slots if each step does. -/
lemma size_foldl {β γ : Type} {step : Array (Slot α) × γ → β → Array (Slot α) × γ}
    (hstep : ∀ state item, (step state item).1.size = state.1.size) (items : Array β)
    (start : Array (Slot α) × γ) : (items.foldl step start).1.size = start.1.size := by
  rw [← Array.foldl_toList]
  induction items.toList generalizing start with
  | nil => rfl
  | cons item items ih => exact (ih _).trans (hstep start item)

/-- Twice as many slots, into which the entries of the first `moved` of the old ones have been
entered so far. -/
def regrowing (hashOf : α → Nat) (slots : Array (Slot α)) (moved : Nat) : Array (Slot α) :=
  (slots.take moved).foldl (fun grown slot =>
    match slot with
    | .entry value => place grown (hashOf value) value
    | _ => grown) (emptySlots (2 * slots.size))

/-- Growing ends when all slots have been moved. -/
lemma regrowing_size (hashOf : α → Nat) (slots : Array (Slot α)) :
    regrowing hashOf slots slots.size = regrown hashOf slots := by
  rw [regrowing, regrown, Array.take_eq_extract, Array.extract_size]
  exact foldl_eq_placeAll (fun _ _ => rfl) (fun _ => rfl) (fun _ => rfl) _

/-- **An array that is being filled is spacious all the time.** -/
theorem Spacious.regrowing (h : Spacious slots) (hashOf : α → Nat) (moved : Nat) :
    Spacious (regrowing hashOf slots moved) := by
  classical
  have heq : Index.regrowing hashOf slots moved =
      placeAll hashOf (emptySlots (2 * slots.size)) (entries (slots.take moved)) :=
    foldl_eq_placeAll (fun _ _ => rfl) (fun _ => rfl) (fun _ => rfl) _
  have hfew : (entries (slots.take moved)).length ≤ slots.size := by
    refine Nat.le_trans length_entries_le (Nat.le_trans Array.countP_le_size ?_)
    simp only [Array.take_eq_extract, Array.size_extract]
    omega
  have hfilled : Filled hashOf (emptySlots (2 * slots.size)) (entries (slots.take moved))
      (Index.regrowing hashOf slots moved) := by
    rw [heq]
    refine placeAll_filled (placed_emptySlots _ hashOf) ?_
    rw [occupied_emptySlots, size_emptySlots]
    omega
  exact hfilled.spacious (isPowerOfTwo_double h.size_isPowerOfTwo) (by omega)

end QuadBase.Index
