import QuadBase.Proofs.Store.Elementary

/-!
# How often a handle stands in the slots

A term table is meant to have one slot for each term.  It has, until it grows for the first time.
The term that makes it grow has been added by then, so its handle is moved into the larger array
with the others and is entered once more as the new one.  The second slot stays until the table
grows again, which is for another term.  Searches stop at the first of the two slots, so no answer
tells; there is just one slot less to spare.

* `slotsOf` — the number of slots of a handle.
* `Exact` — every handle has so many slots, and nothing else is in the way.
* `interned`, `interned_slots` — **this holds after any insertions into a table of any size.**
* `QuadStore.Occurs.exists_interned` — the term tables of stores are such tables.
-/

namespace QuadBase.Store

open QuadBase.Index QuadBase.Rdf

namespace TermTable

variable {t : TermTable} {expected : Nat} {term : Term}

/-! ## The slots of a handle -/

/-- The number of slots of a handle in a table that was made for `expected` terms.  A table with
`n` slots that has grown did so for the first term that crowded `n / 2` slots, which has the handle
`n / 3`. -/
def slotsOf (expected : Nat) (t : TermTable) (handle : Nat) : Nat :=
  if handle = defaultGraph ∨ t.size ≤ handle then 0
  else if t.slots.size ≠ slotsFor expected ∧ handle = t.slots.size / 3 then 2
  else 1

lemma slotsOf_mk (expected : Nat) (terms : Array Term) (slots : Array (Slot Nat)) (handle : Nat) :
    slotsOf expected ⟨terms, slots⟩ handle = if handle = 0 ∨ terms.size + 1 ≤ handle then 0
      else if slots.size ≠ slotsFor expected ∧ handle = slots.size / 3 then 2
      else 1 := rfl

variable [Text.Hasher]

/-- Every handle has its slots, and there is nothing else in the slots. -/
structure Exact (expected : Nat) (t : TermTable) : Prop where
  sound : t.Sound
  deleted_notMem : .deleted ∉ t.slots
  count_eq : ∀ handle, t.slots.count (.entry handle) = slotsOf expected t handle
  occupied_eq : occupied t.slots =
    t.terms.size + if t.slots.size = slotsFor expected then 0 else 1
  /-- A table that has grown has at least doubled, and last so for one of its terms. -/
  grown : t.slots.size ≠ slotsFor expected →
    slotsFor expected * 2 ≤ t.slots.size ∧ t.slots.size < t.size * 3

lemma create_exact (expected : Nat) : Exact expected (create expected) where
  sound := create_sound expected
  deleted_notMem := by simp [create, emptySlots]
  count_eq handle := by
    have hnone : (create expected).slots.count (.entry handle) = 0 := count_emptySlots _ handle
    rw [hnone, slotsOf, if_pos]
    simp only [size, create, defaultGraph, Array.size_empty]
    omega
  occupied_eq := by simp [create]
  grown h := absurd (by simp [create]) h

lemma Exact.slotsFor_le (h : Exact expected t) : slotsFor expected ≤ t.slots.size := by
  by_cases hsize : t.slots.size = slotsFor expected
  · exact hsize.ge
  · have hgrown := h.grown hsize
    omega

omit [Text.Hasher] in
/-- The slots of the handles after a table has grown. -/
lemma count_regrown (n handle : Nat) :
    (List.range' 1 (n + 1) ++ [n + 1]).count handle =
      if handle = 0 ∨ n + 2 ≤ handle then 0 else if handle = n + 1 then 2 else 1 := by
  have hnodup : (List.range' 1 (n + 1)).Nodup := List.nodup_range'
  rw [List.count_append, hnodup.count, List.count_singleton]
  simp only [List.mem_range'_1, beq_iff_eq]
  split_ifs <;> omega

section Adding

variable {terms : Array Term} {slots : Array (Slot Nat)}

/-- A table that grows enters the handle of the new term twice. -/
lemma Exact.grow (h : Exact expected ⟨terms, slots⟩)
    (hcrowded : slots.size * 2 < (terms.size + 2) * 3)
    (hsound : Sound ⟨terms.push term,
      place (enterAll (terms.push term) (2 * slots.size)) term.hash.toNat (terms.size + 1)⟩) :
    Exact expected ⟨terms.push term,
      place (enterAll (terms.push term) (2 * slots.size)) term.hash.toNat (terms.size + 1)⟩ := by
  have huncrowded : (terms.size + 1) * 3 ≤ slots.size * 2 := h.sound.uncrowded
  have hpos : 0 < slots.size := size_pos_of_mem h.sound.empty_mem
  have hleast : slotsFor expected ≤ slots.size := h.slotsFor_le
  have hfilled := regrown_filled terms slots term (show terms.size + 1 < 2 * slots.size by omega)
  have hsize := hfilled.size_eq
  rw [size_emptySlots] at hsize
  refine ⟨hsound, hfilled.deleted_notMem, fun handle => ?_, ?_, fun _ => ?_⟩
  · rw [hfilled.count_of_emptySlots, count_regrown, slotsOf_mk, hsize, Array.size_push]
    split_ifs <;> omega
  · rw [hfilled.occupied_eq, hsize, if_neg (by omega)]
    simp
  · simp only [size, hsize, Array.size_push]
    omega

/-- A table with room enters the handle of the new term into an empty slot. -/
lemma Exact.fill (h : Exact expected ⟨terms, slots⟩) {position : Nat}
    (hempty : slots[position]? = some .empty)
    (hsound : Sound ⟨terms.push term,
      slots.setIfInBounds position (.entry (terms.size + 1))⟩) :
    Exact expected ⟨terms.push term, slots.setIfInBounds position (.entry (terms.size + 1))⟩ := by
  have hgrown : slots.size ≠ slotsFor expected →
      slotsFor expected * 2 ≤ slots.size ∧ slots.size < (terms.size + 1) * 3 := h.grown
  refine ⟨hsound, fun hmem => ?_, fun handle => ?_, ?_, fun hne => ?_⟩
  · rcases Array.mem_or_eq_of_mem_setIfInBounds hmem with hold | heq
    · exact h.deleted_notMem hold
    · cases heq
  · rw [count_enter hempty trivial, h.count_eq, slotsOf_mk, slotsOf_mk,
      Array.size_setIfInBounds, Array.size_push]
    by_cases hnew : terms.size + 1 = handle
    · subst hnew
      -- the handle that stands in two slots is an older one
      have hlast : ¬ (slots.size ≠ slotsFor expected ∧ terms.size + 1 = slots.size / 3) := by
        rintro ⟨hne, hthird⟩
        have hlarge := (hgrown hne).2
        omega
      rw [if_pos rfl, if_pos (by omega), if_neg (by omega), if_neg hlast]
    · have hrange : handle = 0 ∨ terms.size + 1 ≤ handle ↔
          handle = 0 ∨ terms.size + 1 + 1 ≤ handle := by omega
      rw [if_neg hnew, Nat.add_zero]
      simp only [hrange]
  · rw [occupied_setIfInBounds_empty rfl hempty, h.occupied_eq, Array.size_setIfInBounds,
      Array.size_push]
    dsimp only
    omega
  · simp only [size, Array.size_setIfInBounds, Array.size_push] at hne ⊢
    have hlarge := hgrown hne
    omega

/-- **A new term gets one slot, and a second one if the table grows for it.** -/
lemma Exact.add (h : Exact expected t) {position : Nat}
    (hsearch : t.search term = .vacant position) : Exact expected (t.add term position) := by
  have hnew : t.handle? term = none := by rw [handle?, hsearch]
  have hsound := (h.sound.add hnew hsearch).1
  have hdeleted := h.deleted_notMem
  obtain ⟨-, s, hs, hfree⟩ := onPath_of_probe_vacant hsearch (size_pos_of_mem h.sound.empty_mem)
  obtain ⟨terms, slots⟩ := t
  rw [TermTable.add] at hsound ⊢
  simp only [Array.size_push] at hsound ⊢
  split at hsound
  next hcrowded =>
    rw [if_pos hcrowded]
    exact h.grow (of_decide_eq_true hcrowded) hsound
  next hroom =>
    rw [if_neg hroom]
    cases s with
    | empty => exact h.fill hs hsound
    | deleted => exact absurd (Array.mem_of_getElem? hs) hdeleted
    | entry => exact hfree.elim

end Adding

/-! ## Insertions -/

/-- What a table is asked to give a handle to. -/
inductive Insertion where
  | term (term : Term)
  | graph (graph : GraphName)

/-- The table after an insertion, whether there was a handle left or not. -/
def Insertion.run (t : TermTable) : Insertion → TermTable
  | .term x => (t.intern x).2
  | .graph g => (t.internGraph g).2

/-- The table made for `expected` terms, after some insertions. -/
def interned (expected : Nat) (insertions : List Insertion) : TermTable :=
  insertions.foldl Insertion.run (create expected)

lemma Exact.intern (h : Exact expected t) (term : Term) : Exact expected (t.intern term).2 := by
  rw [TermTable.intern]
  split
  next => exact h
  next position hsearch =>
    dsimp only
    split
    next => exact h.add hsearch
    next => exact h
  next => exact h

lemma Exact.run (h : Exact expected t) (insertion : Insertion) :
    Exact expected (insertion.run t) := by
  cases insertion with
  | term x => exact h.intern x
  | graph g =>
    cases g with
    | defaultGraph => exact h
    | named r => exact h.intern (.resource r)

lemma interned_exact (expected : Nat) (insertions : List Insertion) :
    Exact expected (interned expected insertions) := by
  have hfrom : ∀ {t : TermTable}, Exact expected t →
      Exact expected (insertions.foldl Insertion.run t) := by
    induction insertions with
    | nil => exact id
    | cons insertion insertions ih => exact fun h => ih (h.run insertion)
  exact hfrom (create_exact expected)

/-- A table has grown if its terms crowd the slots that it was made with. -/
lemma Exact.size_eq_iff (h : Exact expected t) :
    t.slots.size = slotsFor expected ↔ t.size * 3 ≤ slotsFor expected * 2 := by
  have huncrowded := h.sound.uncrowded
  constructor
  · intro hsize
    rwa [← hsize]
  · intro hroom
    by_contra hne
    have hgrown := h.grown hne
    omega

/-- **A handle stands in one slot, and the default graph in none, but the term that a table has
grown for last stands in two.**  So one slot is taken for each handle but that of the default graph
until a table grows, and from then on one more. -/
theorem interned_slots (expected : Nat) (insertions : List Insertion) :
    let t := interned expected insertions
    let grown := slotsFor expected * 2 < t.size * 3
    (∀ handle, t.slots.count (.entry handle) =
      if handle = defaultGraph ∨ t.size ≤ handle then 0
      else if grown ∧ handle = t.slots.size / 3 then 2
      else 1) ∧
      .deleted ∉ t.slots ∧
      occupied t.slots = t.size - 1 + (if grown then 1 else 0) ∧
      (t.slots.size ≠ slotsFor expected ↔ grown) ∧
      (grown → t.slots.size / 3 < t.size) := by
  intro t grown
  have hexact : Exact expected t := interned_exact expected insertions
  have hgrown : t.slots.size ≠ slotsFor expected ↔ grown := by
    rw [ne_eq, hexact.size_eq_iff, Nat.not_le]
  refine ⟨fun handle => ?_, hexact.deleted_notMem, ?_, hgrown, fun h => ?_⟩
  · rw [hexact.count_eq, slotsOf]
    simp only [hgrown]
  · rw [hexact.occupied_eq, show t.size - 1 = t.terms.size from rfl]
    by_cases h : grown
    · rw [if_pos h, if_neg (hgrown.2 h)]
    · rw [if_neg h, if_pos (not_not.1 (mt hgrown.1 h))]
  · have hlarge := (hexact.grown (hgrown.2 h)).2
    omega

end TermTable

/-! ## The tables of stores -/

/-- Whatever happens to a store, its term table has only seen insertions. -/
theorem QuadStore.Occurs.exists_interned [Text.Hasher] {s : QuadStore} (h : s.Occurs) :
    ∃ insertions, s.terms = TermTable.interned s.config.terms insertions := by
  induction h with
  | create config => exact ⟨[], rfl⟩
  | internTerm h term ih =>
    obtain ⟨insertions, hterms⟩ := ih
    refine ⟨insertions ++ [.term term], ?_⟩
    rw [TermTable.interned, List.foldl_concat]
    exact congrArg (fun t : TermTable => (t.intern term).2) hterms
  | insertHandles h hq ih => exact ih
  | removeId h id ih => exact ih
  | clear h ih => exact ih
  | withNamespaces h namespaces ih => exact ih

/-- Four quads with ten terms in a store that is made for as few as possible.  The tenth term makes
the table grow from 16 slots to 32, and there are eleven of them taken. -/
theorem reached_slots_ten :
    let quad (s p o : String) : Quad := ⟨.iri ⟨s⟩, ⟨p⟩, .resource (.iri ⟨o⟩), .defaultGraph⟩
    let quads :=
      [quad "t1" "t2" "t3", quad "t4" "t5" "t6", quad "t7" "t8" "t9", quad "t10" "t1" "t2"]
    let t := (reached { terms := 0 } [.edit (.extend quads)]).terms
    t.size = 11 ∧ t.slots.size = 32 ∧ t.term? 10 = some (.resource (.iri ⟨"t10"⟩)) ∧
      t.slots.count (.entry 10) = 2 ∧ occupied t.slots ≠ t.size - 1 := by
  decide +kernel

end QuadBase.Store
