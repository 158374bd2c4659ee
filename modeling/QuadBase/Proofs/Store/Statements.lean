import Mathlib.Data.Finset.Card
import QuadBase.Proofs.Index.Filling
import QuadBase.Proofs.Store.Sweep

/-!
# The invariant of the statements

A store's statements live in four structures at once: the records, the chains through them, the
stacks of unused numbers, and the index.  The invariant is split the same way.

**Chains.**  `IsChain s handle p l` says that the chain of a handle in a position is the list `l`:
its live members are the live records with that handle in that position, its other members are
tombstones waiting to be swept.  `Threaded` says that there is such a list for every handle and
position.

**Numbers.**  `Numbered` says that every record that is not live is either free or waiting, not
both.

**Index.**  `Indexed` says that the index has one entry for every live record and no other, each on
the path of its hash, and that it is never crowded.

`Sound` is all of this together with the number of live records.  It holds of an empty store, and
the files behind this one prove that insertions and removals keep it.
-/

namespace QuadBase.Store.Statements

open QuadBase.Index QuadBase.Rdf

/-! ## Live records -/

section Live

variable {records : Array Statement} {s : Statements} {id : Nat} {terms : PerPosition Nat}

lemma terms?_eq : s.terms? id = termsAt s.records id := rfl

lemma isLiveAt_iff : isLiveAt s.records id = true ↔ ∃ terms, s.terms? id = some terms := by
  rw [isLiveAt_eq, Option.isSome_iff_exists]
  rfl

lemma isLiveAt_of_terms? (h : s.terms? id = some terms) : isLiveAt s.records id = true :=
  isLiveAt_iff.2 ⟨terms, h⟩

lemma isLiveAt_eq_false_iff : isLiveAt s.records id = false ↔ s.terms? id = none := by
  rw [isLiveAt_eq, Option.isSome_eq_false_iff, Option.isNone_iff_eq_none]
  rfl

/-- The numbers of the live records. -/
def liveSet (records : Array Statement) : Finset Nat :=
  (Finset.range records.size).filter fun id => isLiveAt records id = true

@[simp] lemma mem_liveSet : id ∈ liveSet records ↔ isLiveAt records id = true := by
  rw [liveSet, Finset.mem_filter, Finset.mem_range]
  exact ⟨And.right, fun h => ⟨lt_size_of_isLiveAt h, h⟩⟩

end Live

/-! ## Chains -/

/-- The chain of a handle in a position is the list `l`. -/
structure IsChain (s : Statements) (handle : Nat) (p : Position) (l : List Nat) : Prop where
  linked : Linked (nextOf s.records p) (s.chainAt handle p).head l
  /-- The live members are the live records with the handle in the position. -/
  live_mem_iff : ∀ {id terms}, s.terms? id = some terms → (id ∈ l ↔ terms.get p = handle)
  /-- The other members are tombstones that wait for a sweep. -/
  dead_mem : ∀ {id}, id ∈ l → s.terms? id = none → id ∈ s.zombies
  count_eq : (s.chainAt handle p).count = (l.filter (isLiveAt s.records)).length

/-- Every handle has its chains, and live records use no other handles. -/
structure Threaded (s : Statements) : Prop where
  exists_chain : ∀ handle p, ∃ l, IsChain s handle p l
  lt_handles : ∀ {id terms}, s.terms? id = some terms → ∀ p, terms.get p < s.chains.size

/-! ## Numbers -/

/-- The records that are not live are either free or waiting for a sweep. -/
structure Numbered (s : Statements) : Prop where
  nodup : (s.free.toList ++ s.zombies.toList).Nodup
  unused_iff : ∀ id, id ∈ s.free ∨ id ∈ s.zombies ↔ id < s.records.size ∧ s.terms? id = none

/-! ## The index -/

variable [Text.Hasher] {s : Statements} {id : Nat} {terms : PerPosition Nat}

/-- The hash that a record is entered under. -/
def hashAt (s : Statements) (id : Nat) : Nat :=
  ((s.terms? id).map hashTerms).getD 0

lemma hashAt_of_terms? (h : s.terms? id = some terms) : s.hashAt id = hashTerms terms := by
  rw [hashAt, h]
  rfl

/-- The index leads to every live record, and to nothing else. -/
structure Indexed (s : Statements) : Prop where
  placed : Placed s.index s.hashAt
  entry_count : ∀ id, s.index.count (.entry id) = if isLiveAt s.records id = true then 1 else 0
  /-- No two live records have the same handles. -/
  distinct : ∀ {id other terms}, s.terms? id = some terms → s.terms? other = some terms → id = other
  used_eq : s.used = occupied s.index
  uncrowded : s.used * 3 ≤ s.index.size * 2
  two_le_size : 2 ≤ s.index.size

/-- **The invariant of the statements.** -/
structure Sound (s : Statements) : Prop extends Threaded s, Numbered s, Indexed s where
  live_eq : s.live = (liveSet s.records).card

/-! ## What the index finds -/

namespace Indexed

lemma empty_mem (h : Indexed s) : .empty ∈ s.index := by
  have huncrowded := h.uncrowded
  have hsize := h.two_le_size
  rw [h.used_eq] at huncrowded
  exact occupied_lt_size_iff.1 (by omega)

lemma entry_mem_iff (h : Indexed s) : .entry id ∈ s.index ↔ isLiveAt s.records id = true := by
  rw [← Array.count_pos_iff, h.entry_count]
  split
  next hlive => simp [hlive]
  next hdead => simp [hdead]

/-- No search comes around without an answer. -/
lemma search_ne_exhausted (h : Indexed s) (terms : PerPosition Nat) : s.search terms ≠ .exhausted :=
  probe_ne_exhausted h.empty_mem _ _

/-- A live record is found under its own handles. -/
lemma search_found (h : Indexed s) (hterms : s.terms? id = some terms) :
    ∃ position, s.search terms = .found position id ∧
      s.index[position]? = some (.entry id) := by
  obtain ⟨position, found, hsearch⟩ :=
    h.placed.probe_found h.empty_mem (fun id => s.terms? id == some terms)
      (h.entry_mem_iff.2 (isLiveAt_of_terms? hterms)) (by simp [hterms])
  obtain ⟨hentry, hsame⟩ := probe_found_mem hsearch
  obtain rfl := h.distinct hterms (eq_of_beq hsame)
  rw [hashAt_of_terms? hterms] at hsearch
  exact ⟨position, hsearch, hentry⟩

/-- **The record of four handles is the live record that has them.** -/
theorem find?_eq_some_iff (h : Indexed s) : s.find? terms = some id ↔ s.terms? id = some terms := by
  constructor
  · intro hfind
    rw [find?] at hfind
    split at hfind
    next position found hsearch =>
      obtain rfl := Option.some.inj hfind
      exact eq_of_beq (probe_found_mem hsearch).2
    next => cases hfind
  · intro hterms
    obtain ⟨position, hsearch, -⟩ := h.search_found hterms
    rw [find?, hsearch]

/-- The search for new handles ends at a free slot of their path. -/
lemma search_vacant (h : Indexed s) (hnew : ∀ id, s.terms? id ≠ some terms) :
    ∃ position, s.search terms = .vacant position ∧ OnPath s.index (hashTerms terms) position ∧
      ∃ slot, s.index[position]? = some slot ∧ slot.IsFree := by
  obtain ⟨position, hsearch⟩ : ∃ position, s.search terms = .vacant position :=
    probe_vacant h.empty_mem fun id _ => by simpa using hnew id
  exact ⟨position, hsearch, onPath_of_probe_vacant hsearch (size_pos_of_mem h.empty_mem)⟩

/-- The live records take a slot each. -/
lemma card_le_used (h : Indexed s) : (liveSet s.records).card ≤ s.used := by
  have hsub : liveSet s.records ⊆ (entries s.index).toFinset := fun id hid => by
    rw [List.mem_toFinset, mem_entries]
    exact h.entry_mem_iff.2 (mem_liveSet.1 hid)
  calc (liveSet s.records).card
      ≤ (entries s.index).toFinset.card := Finset.card_le_card hsub
    _ ≤ (entries s.index).length := List.toFinset_card_le _
    _ ≤ s.used := by rw [h.used_eq]; exact length_entries_le

end Indexed

/-! ## What the chains hold -/

namespace Sound

variable {handle : Nat} {p : Position} {l : List Nat}

/-- The members of chains are records. -/
lemma lt_size (h : s.Sound) (hl : IsChain s handle p l) (hmem : id ∈ l) : id < s.records.size := by
  cases hterms : s.terms? id with
  | some terms => exact lt_size_of_isLiveAt (isLiveAt_of_terms? hterms)
  | none => exact ((h.unused_iff id).1 (Or.inr (hl.dead_mem hmem hterms))).1

lemma length_le (h : s.Sound) (hl : IsChain s handle p l) : l.length ≤ s.records.size :=
  length_le_of_lt hl.linked.nodup fun _ => h.lt_size hl

/-- **The chain of a handle is what following its links gives.** -/
theorem chain_eq (h : s.Sound) (hl : IsChain s handle p l) : s.chain handle p = l :=
  follow_eq hl.linked (h.length_le hl)

lemma isChain (h : s.Sound) (handle : Nat) (p : Position) :
    IsChain s handle p (s.chain handle p) := by
  obtain ⟨l, hl⟩ := h.exists_chain handle p
  rwa [h.chain_eq hl]

/-- Free numbers are in no chain. -/
lemma free_notMem (h : s.Sound) (hl : IsChain s handle p l) (hfree : id ∈ s.free) : id ∉ l := by
  intro hmem
  have hdead := ((h.unused_iff id).1 (Or.inl hfree)).2
  exact (List.nodup_append.1 h.nodup).2.2 id (Array.mem_toList_iff.2 hfree) id
    (Array.mem_toList_iff.2 (hl.dead_mem hmem hdead)) rfl

end Sound

/-! ## Empty statements -/

/-- Statements without records and with empty chains and an empty index. -/
structure Vacant (s : Statements) : Prop where
  records_eq : s.records = #[]
  chainAt_eq : ∀ handle p, s.chainAt handle p = {}
  index_eq : s.index = emptySlots s.index.size
  used_eq : s.used = 0
  live_eq : s.live = 0
  free_eq : s.free = #[]
  zombies_eq : s.zombies = #[]

lemma Vacant.sound (h : Vacant s) (hsize : 2 ≤ s.index.size) : s.Sound := by
  have hterms : ∀ id, s.terms? id = none := fun id => by simp [terms?, h.records_eq]
  have hlive : ∀ id, isLiveAt s.records id = false := fun id => isLiveAt_eq_false_iff.2 (hterms id)
  refine { exists_chain := fun handle p => ⟨[], ?_, ?_, ?_, ?_⟩, lt_handles := ?_, nodup := ?_,
           unused_iff := ?_, placed := ?_, entry_count := ?_, distinct := ?_, used_eq := ?_,
           uncrowded := ?_, two_le_size := hsize, live_eq := ?_ }
  · rw [h.chainAt_eq]
    exact .nil
  · intro id terms hid
    rw [hterms] at hid
    cases hid
  · intro id hid
    cases hid
  · rw [h.chainAt_eq]
    rfl
  · intro id terms hid
    rw [hterms] at hid
    cases hid
  · rw [h.free_eq, h.zombies_eq]
    exact List.nodup_nil
  · intro id
    simp [h.free_eq, h.zombies_eq, h.records_eq]
  · rw [h.index_eq]
    exact placed_emptySlots _ _
  · intro id
    rw [h.index_eq, hlive, if_neg (by simp), Array.count_eq_zero]
    exact entry_notMem_emptySlots
  · intro id other terms hid
    rw [hterms] at hid
    cases hid
  · rw [h.used_eq, h.index_eq, occupied_emptySlots]
  · rw [h.used_eq]
    omega
  · rw [h.live_eq, liveSet, h.records_eq]
    rfl

omit [Text.Hasher] in
lemma chainIn_replicate (count handle : Nat) (p : Position) :
    chainIn (Array.replicate count noChains) handle p = {} := by
  rw [chainIn, Array.getElem?_replicate]
  split
  · exact PerPosition.get_all _ _
  · exact PerPosition.get_all _ _

theorem create_sound (expected handles : Nat) : (create expected handles).Sound := by
  refine Vacant.sound ⟨rfl, chainIn_replicate handles, ?_, rfl, rfl, rfl, rfl⟩ ?_
  · simp [create]
  · have hle := le_powerOfTwoFrom (max expected 8 * 3 / 2)
    simp only [create, size_emptySlots]
    omega

theorem Sound.clear (h : s.Sound) : s.clear.Sound := by
  refine Vacant.sound ⟨rfl, chainIn_replicate s.chains.size, ?_, rfl, rfl, rfl, rfl⟩ ?_
  · simp [Statements.clear]
  · simpa [Statements.clear] using h.two_le_size

/-! ## More handles -/

omit [Text.Hasher] in
lemma chainIn_push_noChains (chains : Array (PerPosition Chain)) (handle : Nat) (p : Position) :
    chainIn (chains.push noChains) handle p = chainIn chains handle p := by
  rw [chainIn, chainIn, Array.getElem?_push]
  split
  next h => simp [h]
  next => rfl

omit [Text.Hasher] in
lemma repeat_push_noChains (count : Nat) (chains : Array (PerPosition Chain)) :
    (Nat.repeat (Array.push · noChains) count chains).size = chains.size + count ∧
      ∀ handle p, chainIn (Nat.repeat (Array.push · noChains) count chains) handle p =
        chainIn chains handle p := by
  induction count with
  | zero => exact ⟨rfl, fun _ _ => rfl⟩
  | succ count ih =>
    rw [Nat.repeat]
    refine ⟨by rw [Array.size_push, ih.1]; omega, ?_⟩
    intro handle p
    rw [chainIn_push_noChains, ih.2]

/-- Providing chains for more handles keeps the invariant. -/
theorem Sound.reserve (h : s.Sound) (handles : Nat) :
    (s.reserve handles).Sound ∧ (s.reserve handles).chains.size = max s.chains.size handles := by
  obtain ⟨hsize, hchains⟩ := repeat_push_noChains (handles - s.chains.size) s.chains
  have hmax : (s.reserve handles).chains.size = max s.chains.size handles := by
    rw [show (s.reserve handles).chains.size = s.chains.size + (handles - s.chains.size) from hsize]
    omega
  have hchainAt : ∀ handle p, (s.reserve handles).chainAt handle p = s.chainAt handle p := hchains
  refine ⟨{ exists_chain := ?_, lt_handles := ?_, nodup := h.nodup,
            unused_iff := h.unused_iff, placed := h.placed, entry_count := h.entry_count,
            distinct := h.distinct, used_eq := h.used_eq, uncrowded := h.uncrowded,
            two_le_size := h.two_le_size, live_eq := h.live_eq }, hmax⟩
  · intro handle p
    obtain ⟨l, hl⟩ := h.exists_chain handle p
    exact ⟨l, (hchainAt handle p).symm ▸ hl.linked, hl.live_mem_iff, hl.dead_mem,
      (hchainAt handle p).symm ▸ hl.count_eq⟩
  · intro id terms hid p
    rw [hmax]
    exact Nat.lt_of_lt_of_le (h.lt_handles hid p) (Nat.le_max_left _ _)

end QuadBase.Store.Statements
