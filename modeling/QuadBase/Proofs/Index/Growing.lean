import QuadBase.Proofs.Index.Filling

/-!
# Tables that grow in time

Vocabularies and records keep marks in their slots, which say what their hash is.  Such a table
grows by entering the marks of the old slots into twice as many.  `Roomy` is what it keeps true of
its slots, and `Roomy.enter` says what a new mark does to it, whether the table grows or not.
`Roomy.entries_entered` and `Roomy.size_entered` are more exact about the marks and the size.
-/

namespace QuadBase.Index

variable {α : Type} {slots : Array (Slot α)} {hashOf : α → Nat} {count : Nat}

/-- A table of at most `count` entries, each on its path, that fill at most two thirds of it. -/
structure Roomy (hashOf : α → Nat) (slots : Array (Slot α)) (count : Nat) : Prop where
  placed : Placed slots hashOf
  load : occupied slots ≤ count
  uncrowded : count * 3 ≤ slots.size * 2
  size_pos : 0 < slots.size

lemma roomy_emptySlots {size : Nat} (hpos : 0 < size) (hashOf : α → Nat) :
    Roomy hashOf (emptySlots size) 0 where
  placed := placed_emptySlots size hashOf
  load := by simp
  uncrowded := by simp
  size_pos := by simpa using hpos

lemma Roomy.empty_mem (h : Roomy hashOf slots count) : .empty ∈ slots := by
  have hload := h.load
  have huncrowded := h.uncrowded
  have hpos := h.size_pos
  exact occupied_lt_size_iff.1 (by omega)

/-- Twice as many slots with the entries of the old ones. -/
def regrown (hashOf : α → Nat) (slots : Array (Slot α)) : Array (Slot α) :=
  placeAll hashOf (emptySlots (2 * slots.size)) (entries slots)

/-- The slots after a new value, the search for which ended at `position`. -/
def entered (hashOf : α → Nat) (slots : Array (Slot α)) (count position : Nat) (value : α) :
    Array (Slot α) :=
  if isCrowded (count + 1) slots.size then place (regrown hashOf slots) (hashOf value) value
  else slots.setIfInBounds position (.entry value)

/-- Growing keeps the entries and leaves room for another one. -/
lemma Roomy.regrown_filled [DecidableEq α] (h : Roomy hashOf slots count) :
    Filled hashOf (emptySlots (2 * slots.size)) (entries slots) (regrown hashOf slots) ∧
      occupied (regrown hashOf slots) < (regrown hashOf slots).size := by
  have hload := h.load
  have huncrowded := h.uncrowded
  have hpos := h.size_pos
  have hentries : (entries slots).length ≤ occupied slots := length_entries_le
  have hspace : occupied (emptySlots (2 * slots.size) : Array (Slot α)) + (entries slots).length ≤
      (emptySlots (2 * slots.size) : Array (Slot α)).size := by
    rw [occupied_emptySlots, size_emptySlots]
    omega
  have hall := placeAll_filled (placed_emptySlots (2 * slots.size) hashOf) hspace
  refine ⟨hall, ?_⟩
  rw [regrown, hall.occupied_eq, hall.size_eq, occupied_emptySlots, size_emptySlots]
  omega

/-- A table doubles as soon as it would be crowded. -/
lemma Roomy.size_entered (h : Roomy hashOf slots count) (position : Nat) (value : α) :
    (entered hashOf slots count position value).size =
      if isCrowded (count + 1) slots.size then 2 * slots.size else slots.size := by
  classical
  rw [entered]
  split
  · obtain ⟨hall, hroom⟩ := h.regrown_filled
    rw [(place_filled hall.placed hroom value).size_eq, hall.size_eq, size_emptySlots]
  · exact Array.size_setIfInBounds

/-- **A new value is entered once**, and every old entry stays as often as it was there. -/
theorem Roomy.count_entered [DecidableEq α] (h : Roomy hashOf slots count) {same : α → Bool}
    {position : Nat} {value : α} (hsearch : probe slots (hashOf value) same = .vacant position)
    (other : α) : (entered hashOf slots count position value).count (.entry other) =
      slots.count (.entry other) + if value = other then 1 else 0 := by
  rw [entered]
  split
  · obtain ⟨hall, hroom⟩ := h.regrown_filled
    rw [(place_filled hall.placed hroom value).count_eq, hall.count_of_emptySlots, count_entries,
      List.count_singleton]
    simp
  · obtain ⟨-, s, hs, hfree⟩ := onPath_of_probe_vacant hsearch h.size_pos
    exact count_enter hs hfree other

/-- The entries are the old ones and the new one, in whatever order. -/
lemma Roomy.entries_entered (h : Roomy hashOf slots count) {same : α → Bool} {position : Nat}
    {value : α} (hsearch : probe slots (hashOf value) same = .vacant position) :
    (entries (entered hashOf slots count position value)).Perm (entries slots ++ [value]) := by
  classical
  rw [List.perm_iff_count]
  intro other
  rw [count_entries, h.count_entered hsearch, List.count_append, count_entries,
    List.count_singleton]
  simp

/-- **A new value keeps the table roomy.** -/
theorem Roomy.enter (h : Roomy hashOf slots count) {same : α → Bool} {position : Nat} (value : α)
    (hsearch : probe slots (hashOf value) same = .vacant position) :
    Roomy hashOf (entered hashOf slots count position value) (count + 1) ∧
      ∀ other, .entry other ∈ entered hashOf slots count position value ↔
        other = value ∨ .entry other ∈ slots := by
  classical
  have hload := h.load
  have huncrowded := h.uncrowded
  have hpos := h.size_pos
  have hsize := h.size_entered position value
  refine ⟨⟨?_, ?_, ?_, ?_⟩, ?_⟩
  · rw [entered]
    split
    · obtain ⟨hall, hroom⟩ := h.regrown_filled
      exact (place_filled hall.placed hroom value).placed
    · exact h.placed.enter (onPath_of_probe_vacant hsearch hpos).1
  · rw [entered]
    split
    · obtain ⟨hall, hroom⟩ := h.regrown_filled
      have hentries : (entries slots).length ≤ occupied slots := length_entries_le
      rw [(place_filled hall.placed hroom value).occupied_eq, hall.occupied_eq,
        occupied_emptySlots, List.length_singleton]
      omega
    · by_cases hempty : slots[position]? = some .empty
      · rw [occupied_setIfInBounds_empty rfl hempty]
        omega
      · rw [occupied_setIfInBounds_taken rfl hempty]
        omega
  · rw [hsize]
    split
    next => omega
    next hroom => rwa [Bool.not_eq_true, isCrowded_eq_false_iff] at hroom
  · rw [hsize]
    split <;> omega
  · intro other
    rw [← Array.count_pos_iff, h.count_entered hsearch, ← Array.count_pos_iff]
    split
    next heq => simp [heq]
    next hne => simp [Ne.symm hne]

end QuadBase.Index
