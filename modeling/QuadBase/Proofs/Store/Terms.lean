import QuadBase.Proofs.Index.Filling
import QuadBase.Store.Terms

/-!
# Terms and their handles

A term table is a list of distinct terms with a search table in front.  `TermTable.Sound` is its
invariant, and two facts carry everything that the store needs.

* `Sound.handle?_eq_some_iff` — **looking up a term and reading a handle undo each other**, so terms
  and handles are in bijection.
* `intern_cases` — what interning can do: it finds the term, adds it behind the others, or has no
  handle left.

Growing enters all terms anew, and the term that made the table grow once more.  So there may be two
slots for one handle, and the invariant only bounds the load; neither lookups nor the bound on the
load mind.
-/

namespace QuadBase.Store.TermTable

open QuadBase.Index QuadBase.Rdf

variable [Text.Hasher] {t : TermTable} {term : Term} {handle : Nat}

/-! ## Reading handles -/

omit [Text.Hasher] in
lemma term?_eq_some_iff :
    t.term? handle = some term ↔ 0 < handle ∧ t.terms[handle - 1]? = some term := by
  rw [term?, defaultGraph]
  split
  next h => simp [h]
  next h => exact ⟨fun hterm => ⟨Nat.pos_of_ne_zero h, hterm⟩, And.right⟩

omit [Text.Hasher] in
lemma term?_isSome_iff : (t.term? handle).isSome ↔ 0 < handle ∧ handle ≤ t.terms.size := by
  simp only [Option.isSome_iff_exists, term?_eq_some_iff, Array.getElem?_eq_some_iff]
  constructor
  · rintro ⟨term, hpos, hlt, -⟩
    exact ⟨hpos, by omega⟩
  · rintro ⟨hpos, hle⟩
    exact ⟨_, hpos, by omega, rfl⟩

omit [Text.Hasher] in
lemma lt_size_of_term? (h : t.term? handle = some term) : handle < t.size := by
  have := term?_isSome_iff.1 (Option.isSome_iff_exists.2 ⟨term, h⟩)
  rw [size]
  omega

/-- The hash that a handle is entered under. -/
def hashAt (t : TermTable) (handle : Nat) : Nat :=
  ((t.term? handle).map fun term => term.hash.toNat).getD 0

lemma hashAt_of_term? (h : t.term? handle = some term) : t.hashAt handle = term.hash.toNat := by
  rw [hashAt, h]
  rfl

/-! ## The invariant -/

/-- The terms are distinct, and the slots lead to every one of them. -/
structure Sound (t : TermTable) : Prop where
  /-- No term has two handles. -/
  injective : ∀ {handle other term}, t.term? handle = some term → t.term? other = some term →
    handle = other
  placed : Placed t.slots t.hashAt
  entry_mem_iff : ∀ handle, .entry handle ∈ t.slots ↔ 0 < handle ∧ handle ≤ t.terms.size
  /-- One slot more than there are terms may be taken. -/
  load : occupied t.slots ≤ t.terms.size + 1
  uncrowded : (t.terms.size + 1) * 3 ≤ t.slots.size * 2

/-- An empty slot is left. -/
lemma Sound.empty_mem (h : t.Sound) : .empty ∈ t.slots := by
  have hload := h.load
  have huncrowded := h.uncrowded
  exact occupied_lt_size_iff.1 (by omega)

lemma Sound.entry_mem (h : t.Sound) (hterm : t.term? handle = some term) :
    .entry handle ∈ t.slots :=
  (h.entry_mem_iff handle).2 (term?_isSome_iff.1 (Option.isSome_iff_exists.2 ⟨term, hterm⟩))

lemma create_sound (expected : Nat) : (create expected).Sound where
  injective h _ := by simp [create, term?_eq_some_iff] at h
  placed := placed_emptySlots _ _
  entry_mem_iff handle := by
    simp only [create, entry_notMem_emptySlots, false_iff, Array.size_empty]
    omega
  load := by simp [create]
  uncrowded := by
    have hle := le_powerOfTwoFrom (max expected 8 * 3 / 2)
    simp only [create, slotsFor, size_emptySlots, Array.size_empty]
    omega

/-! ## Lookups -/

/-- **The handle of a term is the handle that has this term.** -/
theorem Sound.handle?_eq_some_iff (h : t.Sound) :
    t.handle? term = some handle ↔ t.term? handle = some term := by
  rw [handle?]
  constructor
  · intro hhandle
    split at hhandle
    next position found hsearch =>
      obtain rfl := Option.some.inj hhandle
      exact eq_of_beq (probe_found_mem hsearch).2
    next => cases hhandle
  · intro hterm
    obtain ⟨position, found, hsearch⟩ :=
      h.placed.probe_found h.empty_mem (fun handle => t.term? handle == some term)
        (h.entry_mem hterm) (by simp [hterm])
    rw [hashAt_of_term? hterm] at hsearch
    have hfound : t.term? found = some term := by simpa using (probe_found_mem hsearch).2
    rw [search, hsearch, h.injective hterm hfound]

lemma Sound.handle?_eq_none_iff (h : t.Sound) :
    t.handle? term = none ↔ ∀ handle, t.term? handle ≠ some term := by
  rw [Option.eq_none_iff_forall_ne_some]
  exact forall_congr' fun handle => not_congr h.handle?_eq_some_iff

/-- No search comes around without an answer. -/
lemma Sound.search_ne_exhausted (h : t.Sound) (term : Term) : t.search term ≠ .exhausted :=
  probe_ne_exhausted h.empty_mem _ _

/-- The search for a new term ends at a free slot. -/
lemma Sound.search_vacant (h : t.Sound) (hnew : t.handle? term = none) :
    ∃ position, t.search term = .vacant position := by
  refine Probe.exists_vacant (h.search_ne_exhausted term) fun position handle hsearch => ?_
  rw [handle?, hsearch] at hnew
  cases hnew

/-! ## Adding a term -/

omit [Text.Hasher] in
/-- The handles of a table with one more term. -/
lemma term?_push {terms : Array Term} (slots : Array (Slot Nat)) {slots' : Array (Slot Nat)} :
    (⟨terms.push term, slots'⟩ : TermTable).term? handle =
      if handle = terms.size + 1 then some term else (⟨terms, slots⟩ : TermTable).term? handle := by
  simp only [term?, defaultGraph, Array.getElem?_push]
  by_cases hzero : handle = 0
  · simp [hzero]
  · simp only [hzero, if_false]
    exact if_congr (by omega) rfl rfl

omit [Text.Hasher] in
/-- A new term gets one handle, and no other term loses its own. -/
lemma injective_push {terms : Array Term} {slots : Array (Slot Nat)}
    (hold : ∀ {handle other found}, (⟨terms, slots⟩ : TermTable).term? handle = some found →
      (⟨terms, slots⟩ : TermTable).term? other = some found → handle = other)
    (hnew : ∀ handle, (⟨terms, slots⟩ : TermTable).term? handle ≠ some term)
    (slots' : Array (Slot Nat)) {handle other : Nat} {found : Term}
    (hhandle : (⟨terms.push term, slots'⟩ : TermTable).term? handle = some found)
    (hother : (⟨terms.push term, slots'⟩ : TermTable).term? other = some found) :
    handle = other := by
  rw [term?_push slots] at hhandle hother
  split at hhandle <;> split at hother
  next hl hr => rw [hl, hr]
  next => exact absurd (Option.some.inj hhandle ▸ hother) (hnew other)
  next => exact absurd (Option.some.inj hother ▸ hhandle) (hnew handle)
  next => exact hold hhandle hother

/-- The new handle has the hash of the new term, whatever the slots are. -/
lemma hashAt_push {terms : Array Term} (slots : Array (Slot Nat)) :
    hashAt ⟨terms.push term, slots⟩ (terms.size + 1) = term.hash.toNat :=
  hashAt_of_term? (by rw [term?_push slots, if_pos rfl])

/-- Entering all terms into enough slots. -/
lemma enterAll_filled (t : TermTable) (count : Nat) (hroom : t.terms.size ≤ count) :
    Filled t.hashAt (emptySlots count) (List.range' 1 t.terms.size)
      (enterAll t.terms count) := by
  have hnumbers : hashedNumbers (fun term : Term => some term.hash.toNat) 1 t.terms.toList =
      List.range' 1 t.terms.size := by
    have hall : hashedNumbers (fun term : Term => some term.hash.toNat) 1 t.terms.toList =
        (t.terms.toList.zipIdx 1).map Prod.snd := by
      simp only [hashedNumbers, Option.map_some, List.filterMap_eq_map']
    rw [hall, List.zipIdx_map_snd, Array.length_toList]
  have heq : enterAll t.terms count =
      placeAll t.hashAt (emptySlots count) (List.range' 1 t.terms.size) := by
    rw [enterAll, ← Array.foldl_toList, ← hnumbers]
    refine foldl_place_numbers (fun term : Term => some term.hash.toNat) _ _ _ _ ?_
    intro i term hterm hash hhash
    obtain rfl := Option.some.inj hhash
    refine hashAt_of_term? (term?_eq_some_iff.2 ⟨by omega, ?_⟩)
    rwa [Nat.add_sub_cancel_left, ← Array.getElem?_toList]
  rw [heq]
  exact placeAll_filled (placed_emptySlots _ _) (by simpa using hroom)

/-- The slots of a table that grows for a new term.  The handle of this term is entered with the
others and then once more. -/
lemma regrown_filled (terms : Array Term) (slots : Array (Slot Nat)) (term : Term) {count : Nat}
    (hroom : terms.size + 1 < count) :
    Filled (hashAt ⟨terms.push term, slots⟩) (emptySlots count)
      (List.range' 1 (terms.size + 1) ++ [terms.size + 1])
      (place (enterAll (terms.push term) count) term.hash.toNat (terms.size + 1)) := by
  have hfilled := enterAll_filled ⟨terms.push term, slots⟩ count
    (by simp only [Array.size_push]; omega)
  have hsize := hfilled.size_eq
  have hcount := hfilled.occupied_eq
  simp only [Array.size_push, size_emptySlots, occupied_emptySlots,
    List.length_range'] at hfilled hsize hcount
  have hlast := place_filled hfilled.placed (by rw [hsize, hcount]; omega) (terms.size + 1)
  rw [hashAt_push] at hlast
  exact hfilled.trans hlast

/-- **Adding a new term keeps the table sound.** -/
theorem Sound.add (h : t.Sound) (hnew : t.handle? term = none) {position : Nat}
    (hsearch : t.search term = .vacant position) :
    (t.add term position).Sound ∧ (t.add term position).terms = t.terms.push term := by
  have hnone := h.handle?_eq_none_iff.1 hnew
  have hload := h.load
  have huncrowded := h.uncrowded
  have hplaced := h.placed
  have hentries := h.entry_mem_iff
  obtain ⟨hpath, s, hs, hfree⟩ := onPath_of_probe_vacant hsearch (size_pos_of_mem h.empty_mem)
  obtain ⟨terms, slots⟩ := t
  dsimp only at hload huncrowded hplaced hentries hs hpath
  have hinjective := injective_push h.injective hnone
  rw [TermTable.add]
  simp only [Array.size_push]
  split
  next hcrowded =>
    have hfilled := regrown_filled terms slots term (show terms.size + 1 < 2 * slots.size by omega)
    refine ⟨⟨hinjective _, hfilled.placed, ?_, ?_, ?_⟩, rfl⟩
    · intro handle
      rw [hfilled.mem_iff, List.mem_append, List.mem_singleton, List.mem_range'_1]
      simp only [Array.size_push, entry_notMem_emptySlots, or_false]
      omega
    · rw [hfilled.occupied_eq]
      simp
    · rw [hfilled.size_eq, size_emptySlots, Array.size_push]
      omega
  next hroom =>
    rw [Bool.not_eq_true, isCrowded_eq_false_iff] at hroom
    refine ⟨⟨hinjective _, ?_, ?_, ?_, ?_⟩, rfl⟩
    · have hold : Placed slots (hashAt ⟨terms.push term, slots⟩) := by
        refine hplaced.congr ?_
        intro handle hmem
        have hrange := (hentries handle).1 hmem
        rw [hashAt, hashAt, term?_push slots, if_neg (by omega)]
      refine Placed.enter (hold.congr fun _ _ => rfl) ?_
      rw [hashAt_push]
      exact hpath
    · intro handle
      rw [entry_mem_enter hs hfree, hentries handle, Array.size_push]
      omega
    · by_cases hempty : slots[position]? = some .empty
      · rw [occupied_setIfInBounds_empty rfl hempty, Array.size_push]
        omega
      · rw [occupied_setIfInBounds_taken rfl hempty, Array.size_push]
        omega
    · rw [Array.size_setIfInBounds, Array.size_push]
      exact hroom

/-! ## Interning -/

/-- **What interning can do.** -/
theorem Sound.intern_cases (h : t.Sound) (term : Term) :
    (∃ handle, t.term? handle = some term ∧ t.intern term = (.ok handle, t)) ∨
    (t.handle? term = none ∧ t.size < capacity ∧ ∃ t' : TermTable, t'.Sound ∧
      t'.terms = t.terms.push term ∧ t.intern term = (.ok t.size, t')) ∨
    (t.handle? term = none ∧ capacity ≤ t.size ∧
      t.intern term = (.error (.capacityExceeded .terms capacity), t)) := by
  cases hhandle : t.handle? term with
  | some handle =>
    refine Or.inl ⟨handle, h.handle?_eq_some_iff.1 hhandle, ?_⟩
    rw [handle?] at hhandle
    split at hhandle
    next position found hsearch =>
      rw [intern, hsearch, Option.some.inj hhandle]
    next => cases hhandle
  | none =>
    obtain ⟨position, hsearch⟩ := h.search_vacant hhandle
    have hadd := h.add hhandle hsearch
    simp only [intern, hsearch]
    by_cases hroom : t.size < capacity
    · exact Or.inr (Or.inl ⟨trivial, hroom, _, hadd.1, hadd.2, by rw [if_pos hroom]⟩)
    · exact Or.inr (Or.inr ⟨trivial, Nat.not_lt.1 hroom, by rw [if_neg hroom]⟩)

end QuadBase.Store.TermTable
