import Mathlib.Data.Nat.Find
import QuadBase.Proofs.Index.Searching

/-!
# Filling open-addressed tables

How many slots of a table are taken, and what entering values one after the other does to it.  This
is what growing a table consists of, so the four tables of the project share it.

* `occupied_setIfInBounds_empty`, `occupied_setIfInBounds_taken` — the load after a change of one
  slot.
* `vacant?_eq_some` — as long as a slot is empty, the search for one finds it.
* `count_enter`, `count_delete` — the entries after a change of one slot.
* `placeAll` — entering a list of values.  `placeAll_filled` says that as long as there is room,
  the result holds the old entries and the new ones, all on their paths.
* `entries`, `foldl_place_numbers` — how the tables grow: by entering the values of the old slots,
  or the numbers of all items.
-/

namespace QuadBase.Index

variable {α : Type} {slots : Array (Slot α)} {hash : Nat} {hashOf : α → Nat}

/-! ## The load -/

@[simp] lemma Slot.isEmpty_empty : (Slot.empty : Slot α).isEmpty = true := rfl

@[simp] lemma Slot.isEmpty_deleted : (Slot.deleted : Slot α).isEmpty = false := rfl

@[simp] lemma Slot.isEmpty_entry (value : α) : (Slot.entry value).isEmpty = false := rfl

@[simp] lemma size_emptySlots (count : Nat) : (emptySlots count : Array (Slot α)).size = count :=
  Array.size_replicate

@[simp] lemma occupied_emptySlots (count : Nat) :
    occupied (emptySlots count : Array (Slot α)) = 0 := by
  simp [occupied, emptySlots, Array.countP_replicate]

lemma entry_notMem_emptySlots {count : Nat} {value : α} : .entry value ∉ emptySlots count := by
  simp [emptySlots]

lemma count_emptySlots [DecidableEq α] (count : Nat) (value : α) :
    (emptySlots count).count (.entry value) = 0 :=
  Array.count_eq_zero.2 entry_notMem_emptySlots

lemma placed_emptySlots (count : Nat) (hashOf : α → Nat) : Placed (emptySlots count) hashOf :=
  fun _ _ h => absurd (Array.mem_of_getElem? h) entry_notMem_emptySlots

/-- Not every slot is taken as long as one is empty. -/
theorem occupied_lt_size_iff : occupied slots < slots.size ↔ .empty ∈ slots := by
  have hle : occupied slots ≤ slots.size := Array.countP_le_size
  have hall : occupied slots = slots.size ↔ ∀ s ∈ slots, (!s.isEmpty) = true :=
    Array.countP_eq_size
  constructor
  · intro hlt
    by_contra hnone
    refine hlt.ne (hall.2 ?_)
    intro s hs
    cases s with
    | empty => exact absurd hs hnone
    | deleted => rfl
    | entry => rfl
  · intro hempty
    refine lt_of_le_of_ne hle ?_
    intro heq
    have := hall.1 heq _ hempty
    simp at this

/-- Taking an empty slot. -/
theorem occupied_setIfInBounds_empty {position : Nat} {s : Slot α} (hs : s.isEmpty = false)
    (hold : slots[position]? = some .empty) :
    occupied (slots.setIfInBounds position s) = occupied slots + 1 := by
  obtain ⟨hlt, hslot⟩ := Array.getElem?_eq_some_iff.1 hold
  rw [Array.setIfInBounds, dif_pos hlt, occupied, Array.countP_set hlt, hslot, occupied]
  simp [hs]

/-- Changing a slot that is taken. -/
theorem occupied_setIfInBounds_taken {position : Nat} {s : Slot α} (hs : s.isEmpty = false)
    (hold : slots[position]? ≠ some .empty) :
    occupied (slots.setIfInBounds position s) = occupied slots := by
  rw [Array.setIfInBounds]
  split
  next hlt =>
    have htaken : (!slots[position].isEmpty) = true := by
      rw [Array.getElem?_eq_getElem hlt] at hold
      cases hslot : slots[position] with
      | empty => exact absurd (congrArg some hslot) hold
      | deleted => rfl
      | entry => rfl
    have hcount : 0 < Array.countP (fun s => !s.isEmpty) slots :=
      Array.countP_pos_iff.2 ⟨_, Array.getElem_mem hlt, htaken⟩
    rw [occupied, Array.countP_set hlt, occupied, htaken, hs]
    simp only [Bool.not_false, if_true]
    omega
  next => rfl

/-! ## The entries after a change -/

section Entries

variable [DecidableEq α]

/-- **Overwriting a free slot adds one entry.** -/
theorem count_enter {position : Nat} {value : α} {s : Slot α} (hslot : slots[position]? = some s)
    (hfree : s.IsFree) (other : α) :
    (slots.setIfInBounds position (.entry value)).count (.entry other) =
      slots.count (.entry other) + if value = other then 1 else 0 := by
  obtain ⟨hlt, rfl⟩ := Array.getElem?_eq_some_iff.1 hslot
  have hold : (slots[position] == .entry other) = false := by
    refine beq_eq_false_iff_ne.2 ?_
    intro h
    rw [h] at hfree
    exact hfree
  rw [Array.setIfInBounds, dif_pos hlt, Array.count_set hlt, hold]
  simp

/-- A deletion marker removes one entry. -/
theorem count_delete {position : Nat} {value : α}
    (hslot : slots[position]? = some (.entry value)) (other : α) :
    (slots.setIfInBounds position .deleted).count (.entry other) =
      slots.count (.entry other) - if value = other then 1 else 0 := by
  obtain ⟨hlt, hentry⟩ := Array.getElem?_eq_some_iff.1 hslot
  rw [Array.setIfInBounds, dif_pos hlt, Array.count_set hlt, hentry]
  simp

lemma entry_mem_enter {position : Nat} {value other : α} {s : Slot α}
    (hslot : slots[position]? = some s) (hfree : s.IsFree) :
    .entry other ∈ slots.setIfInBounds position (.entry value) ↔
      other = value ∨ .entry other ∈ slots := by
  rw [← Array.count_pos_iff, count_enter hslot hfree, ← Array.count_pos_iff]
  split
  next h => simp [h]
  next h => simp [Ne.symm h]

end Entries

/-! ## The search for an empty slot -/

/-- The search for an empty slot ends at the first one. -/
theorem vacantFrom?_eq_some (hpos : 0 < slots.size) (hash : Nat) {steps d e : Nat} (lower : d ≤ e)
    (upper : e < d + steps) (hempty : slots[visited slots hash e]? = some .empty)
    (hbefore : ∀ k, d ≤ k → k < e → slots[visited slots hash k]? ≠ some .empty) :
    vacantFrom? slots steps (visited slots hash d) = some (visited slots hash e) := by
  induction steps generalizing d with
  | zero => omega
  | succ steps ih =>
    obtain ⟨s, hs⟩ : ∃ s, slots[visited slots hash d]? = some s :=
      ⟨_, Array.getElem?_eq_getElem (visited_lt hpos d)⟩
    rcases Nat.eq_or_lt_of_le lower with rfl | hlt
    · rw [vacantFrom?, hempty]
    · have hs' : s ≠ .empty := by
        rintro rfl
        exact hbefore d (le_refl d) hlt hs
      have hrest := ih (d := d + 1) hlt (by omega) fun k hk hk' => hbefore k (by omega) hk'
      rw [vacantFrom?, hs]
      cases s with
      | empty => exact absurd rfl hs'
      | deleted => rw [← hrest, ← nextPosition_visited hpos]
      | entry => rw [← hrest, ← nextPosition_visited hpos]

/-- As long as a slot is empty, the search for one finds one on the path of the hash. -/
theorem vacant?_eq_some (h : .empty ∈ slots) (hash : Nat) :
    ∃ position, vacant? slots hash = some position ∧ slots[position]? = some .empty ∧
      OnPath slots hash position := by
  classical
  have hpos := size_pos_of_mem h
  obtain ⟨d, hd, hd'⟩ : ∃ d < slots.size, slots[visited slots hash d]? = some .empty := by
    obtain ⟨i, hi, hslot⟩ := Array.mem_iff_getElem.1 h
    obtain ⟨d, hd, rfl⟩ := exists_visited hi hash
    exact ⟨d, hd, by rw [Array.getElem?_eq_getElem hi, hslot]⟩
  have hex : ∃ d, slots[visited slots hash d]? = some .empty := ⟨d, hd'⟩
  have hfirst := Nat.find_spec hex
  have hle : Nat.find hex ≤ d := Nat.find_min' hex hd'
  have hbefore : ∀ k < Nat.find hex, slots[visited slots hash k]? ≠ some .empty :=
    fun k hk => Nat.find_min hex hk
  refine ⟨visited slots hash (Nat.find hex), ?_, hfirst, Nat.find hex, by omega, rfl, hbefore⟩
  have hfrom := vacantFrom?_eq_some hpos hash (Nat.zero_le _)
    (show Nat.find hex < 0 + slots.size by omega) hfirst fun k _ hk => hbefore k hk
  rwa [visited, Nat.add_zero] at hfrom

/-! ## Entering values -/

/-- Enters values one after the other. -/
def placeAll (hashOf : α → Nat) (slots : Array (Slot α)) (values : List α) : Array (Slot α) :=
  values.foldl (fun slots value => place slots (hashOf value) value) slots

variable [DecidableEq α]

/-- `filled` is `slots` with some more values in slots that were empty. -/
structure Filled (hashOf : α → Nat) (slots : Array (Slot α)) (values : List α)
    (filled : Array (Slot α)) : Prop where
  size_eq : filled.size = slots.size
  placed : Placed filled hashOf
  occupied_eq : occupied filled = occupied slots + values.length
  count_eq : ∀ value, filled.count (.entry value) = slots.count (.entry value) + values.count value

lemma Filled.mem_iff {values : List α} {filled : Array (Slot α)}
    (h : Filled hashOf slots values filled) (value : α) :
    .entry value ∈ filled ↔ value ∈ values ∨ .entry value ∈ slots := by
  rw [← Array.count_pos_iff, h.count_eq, ← Array.count_pos_iff, ← List.count_pos_iff]
  omega

lemma Filled.count_of_emptySlots {size : Nat} {values : List α} {filled : Array (Slot α)}
    (h : Filled hashOf (emptySlots size) values filled) (value : α) :
    filled.count (.entry value) = values.count value := by
  rw [h.count_eq, count_emptySlots, Nat.zero_add]

/-- Filling is done in any number of rounds. -/
lemma Filled.trans {values more : List α} {filled full : Array (Slot α)}
    (h : Filled hashOf slots values filled) (h' : Filled hashOf filled more full) :
    Filled hashOf slots (values ++ more) full where
  size_eq := h'.size_eq.trans h.size_eq
  placed := h'.placed
  occupied_eq := by
    rw [h'.occupied_eq, h.occupied_eq, List.length_append, Nat.add_assoc]
  count_eq value := by
    rw [h'.count_eq, h.count_eq, List.count_append, Nat.add_assoc]

/-- Entering one value. -/
theorem place_filled (hp : Placed slots hashOf) (hroom : occupied slots < slots.size) (value : α) :
    Filled hashOf slots [value] (place slots (hashOf value) value) := by
  obtain ⟨position, hvacant, hempty, hpath⟩ :=
    vacant?_eq_some (occupied_lt_size_iff.1 hroom) (hashOf value)
  rw [place, hvacant]
  refine ⟨Array.size_setIfInBounds, hp.enter hpath, ?_, ?_⟩
  · rw [occupied_setIfInBounds_empty rfl hempty, List.length_singleton]
  · intro other
    rw [count_enter hempty trivial, List.count_singleton]
    simp

/-- **Entering values keeps the table searchable**, as long as an empty slot is left each time. -/
theorem placeAll_filled (hp : Placed slots hashOf) {values : List α}
    (hroom : occupied slots + values.length ≤ slots.size) :
    Filled hashOf slots values (placeAll hashOf slots values) := by
  induction values generalizing slots with
  | nil => exact ⟨rfl, hp, rfl, fun _ => rfl⟩
  | cons value values ih =>
    rw [List.length_cons] at hroom
    have hfirst := place_filled hp (show occupied slots < slots.size by omega) value
    have hone := hfirst.occupied_eq
    rw [List.length_singleton] at hone
    exact hfirst.trans (ih hfirst.placed (by rw [hone, hfirst.size_eq]; omega))

omit [DecidableEq α]

/-! ## The values of a table -/

/-- The value of a slot. -/
def Slot.value? : Slot α → Option α
  | .entry value => some value
  | _ => none

/-- The values in a table. -/
def entries (slots : Array (Slot α)) : List α :=
  slots.toList.filterMap Slot.value?

lemma mem_entries {value : α} : value ∈ entries slots ↔ .entry value ∈ slots := by
  rw [entries, List.mem_filterMap]
  constructor
  · rintro ⟨s, hs, hvalue⟩
    cases s with
    | entry other =>
      obtain rfl := Option.some.inj hvalue
      exact Array.mem_toList_iff.1 hs
    | empty => cases hvalue
    | deleted => cases hvalue
  · exact fun h => ⟨_, Array.mem_toList_iff.2 h, rfl⟩

lemma count_entries [DecidableEq α] (value : α) :
    (entries slots).count value = slots.count (.entry value) := by
  rw [entries, List.count_filterMap, ← Array.count_toList, List.count]
  congr 1
  funext s
  cases s <;> simp [Slot.value?]

/-- What is taken is an entry or a deletion marker. -/
lemma occupied_eq_length_add_count [DecidableEq α] :
    occupied slots = (entries slots).length + slots.count .deleted := by
  rw [occupied, entries, ← Array.countP_toList, ← Array.count_toList]
  induction slots.toList with
  | nil => rfl
  | cons s slots ih =>
    rw [List.countP_cons, List.filterMap_cons, List.count_cons, ih]
    cases s with
    | empty => simp [Slot.value?]
    | deleted => simp [Slot.value?, Nat.add_assoc]
    | entry => simp [Slot.value?, Nat.add_right_comm]

lemma length_entries_le : (entries slots).length ≤ occupied slots := by
  classical
  rw [occupied_eq_length_add_count]
  exact Nat.le_add_right _ _

/-- Filling empty slots leaves no deletion markers. -/
lemma Filled.deleted_notMem [DecidableEq α] {size : Nat} {values : List α}
    {filled : Array (Slot α)} (h : Filled hashOf (emptySlots size) values filled) :
    .deleted ∉ filled := by
  have hentries : (entries filled).Perm values := by
    rw [List.perm_iff_count]
    intro value
    rw [count_entries, h.count_of_emptySlots]
  have hcount := h.occupied_eq
  rw [occupied_eq_length_add_count, occupied_emptySlots, hentries.length_eq] at hcount
  exact Array.count_eq_zero.1 (by omega)

/-- A step over the slots that enters values and skips everything else enters all values of a
table. -/
lemma foldl_eq_placeAll {step : Array (Slot α) → Slot α → Array (Slot α)}
    (hentry : ∀ grown value, step grown (.entry value) = place grown (hashOf value) value)
    (hempty : ∀ grown, step grown .empty = grown) (hdeleted : ∀ grown, step grown .deleted = grown)
    (start : Array (Slot α)) : slots.foldl step start = placeAll hashOf start (entries slots) := by
  rw [← Array.foldl_toList, placeAll, entries, List.foldl_filterMap]
  congr 1
  funext grown slot
  cases slot with
  | empty => exact hempty grown
  | deleted => exact hdeleted grown
  | entry value => exact hentry grown value

/-! ## Entering numbered items

The tables of terms and statements keep numbers, and grow by entering the numbers of all their items
in order.
-/

/-- The numbers, from `start` on, of the items that have a hash. -/
def hashedNumbers {β : Type} (hashOf? : β → Option Nat) (start : Nat) (items : List β) : List Nat :=
  (items.zipIdx start).filterMap fun entry => (hashOf? entry.1).map fun _ => entry.2

lemma hashedNumbers_cons {β : Type} (hashOf? : β → Option Nat) (start : Nat) (item : β)
    (items : List β) : hashedNumbers hashOf? start (item :: items) =
      ((hashOf? item).map fun _ => start).toList ++ hashedNumbers hashOf? (start + 1) items := by
  rw [hashedNumbers, List.zipIdx_cons, List.filterMap_cons]
  cases hashOf? item <;> rfl

lemma mem_hashedNumbers {β : Type} {hashOf? : β → Option Nat} {start : Nat} {items : List β}
    {number : Nat} : number ∈ hashedNumbers hashOf? start items ↔
      start ≤ number ∧ ∃ item, items[number - start]? = some item ∧ (hashOf? item).isSome := by
  simp only [hashedNumbers, List.mem_filterMap, Prod.exists,
    List.mem_zipIdx_iff_le_and_getElem?_sub]
  constructor
  · rintro ⟨item, i, ⟨hle, hitem⟩, hnumber⟩
    obtain ⟨h, hh, rfl⟩ := Option.map_eq_some_iff.1 hnumber
    exact ⟨hle, item, hitem, by simp [hh]⟩
  · rintro ⟨hle, item, hitem, hsome⟩
    obtain ⟨h, hh⟩ := Option.isSome_iff_exists.1 hsome
    exact ⟨item, number, ⟨hle, hitem⟩, by simp [hh]⟩

lemma length_hashedNumbers {β : Type} (hashOf? : β → Option Nat) (start : Nat) (items : List β) :
    (hashedNumbers hashOf? start items).length =
      items.countP fun item => (hashOf? item).isSome := by
  induction items generalizing start with
  | nil => rfl
  | cons item items ih =>
    rw [hashedNumbers_cons, List.countP_cons, ← ih (start + 1)]
    cases hashOf? item <;> simp

lemma hashedNumbers_nodup {β : Type} {hashOf? : β → Option Nat} {start : Nat} {items : List β} :
    (hashedNumbers hashOf? start items).Nodup := by
  induction items generalizing start with
  | nil => exact List.nodup_nil
  | cons item items ih =>
    rw [hashedNumbers_cons]
    cases hashOf? item with
    | none => exact ih
    | some hash =>
      refine List.nodup_cons.2 ⟨?_, ih⟩
      intro hmem
      exact Nat.not_succ_le_self start (mem_hashedNumbers.1 hmem).1

/-- Entering all items that have a hash, each under its number. -/
theorem foldl_place_numbers {β : Type} (hashOf? : β → Option Nat) (hashOf : Nat → Nat)
    (items : List β) (start : Nat) (slots : Array (Slot Nat))
    (h : ∀ i item, items[i]? = some item → ∀ hash ∈ hashOf? item, hashOf (start + i) = hash) :
    (items.foldl (fun (slots, number) item => match hashOf? item with
      | some hash => (place slots hash number, number + 1)
      | none => (slots, number + 1)) (slots, start)).1 =
      placeAll hashOf slots (hashedNumbers hashOf? start items) := by
  induction items generalizing start slots with
  | nil => rfl
  | cons item items ih =>
    have hrest := fun slots => ih (start + 1) slots fun i other hi hash hhash => by
      rw [Nat.add_assoc, Nat.add_comm 1 i]
      exact h (i + 1) other hi hash hhash
    rw [List.foldl_cons, hashedNumbers_cons]
    cases hitem : hashOf? item with
    | none => exact hrest slots
    | some hash =>
      obtain rfl : hashOf start = hash := h 0 item rfl hash hitem
      exact hrest _

/-! ## Sizes -/

lemma le_powerOfTwoFrom (n : Nat) : n ≤ powerOfTwoFrom n := by
  rw [powerOfTwoFrom]
  split
  · assumption
  · have hlt : n - 1 < Nat.pow 2 ((n - 1).log2 + 1) := Nat.lt_log2_self
    omega

lemma isCrowded_eq_false_iff {occupied count : Nat} :
    isCrowded occupied count = false ↔ occupied * 3 ≤ count * 2 := by
  rw [isCrowded, decide_eq_false_iff_not, Nat.not_lt]

end QuadBase.Index
