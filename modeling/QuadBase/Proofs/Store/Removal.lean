import QuadBase.Proofs.Store.Insertion

/-!
# Removing statements

A removal makes a record a tombstone and its index entry a deletion marker, and sweeps if there are
then as many tombstones as live records.  Both halves keep the invariant on their own, and after a
removal there are fewer tombstones than live records, or none (`Settled`).

* `Sound.bury` — making a tombstone.  The record stays in its chains.
* `Sound.sweep` — unlinking all tombstones.
* `Sound.remove_cases` — **what a removal can do**.  A live record is always removed.
-/

namespace QuadBase.Store.Statements

open QuadBase.Index QuadBase.Rdf

/-- There are fewer tombstones in the chains than live records, or none. -/
def Settled (s : Statements) : Prop :=
  s.zombies.size = 0 ∨ s.zombies.size < s.live

variable {s : Statements} {id position : Nat} {terms : PerPosition Nat}

/-! ## Making a tombstone -/

section Bury

lemma getElem?_bury (other : Nat) : (s.bury terms id position).records[other]? =
    if id = other then s.records[other]?.map fun record => { record with terms := none }
    else s.records[other]? :=
  Array.getElem?_modify

lemma terms?_bury (other : Nat) : (s.bury terms id position).terms? other =
    if other = id then none else s.terms? other := by
  rw [terms?, getElem?_bury, terms?]
  by_cases heq : id = other
  · subst heq
    rw [if_pos rfl, if_pos rfl]
    cases s.records[id]? <;> rfl
  · rw [if_neg heq, if_neg (Ne.symm heq)]

lemma isLiveAt_bury (other : Nat) : isLiveAt (s.bury terms id position).records other =
    if other = id then false else isLiveAt s.records other := by
  rw [isLiveAt_eq, isLiveAt_eq, ← terms?_eq, terms?_bury]
  split
  · rfl
  · rfl

lemma nextOf_bury (p : Position) :
    nextOf (s.bury terms id position).records p = nextOf s.records p := by
  funext other
  rw [nextOf, getElem?_bury, nextOf]
  split
  · cases s.records[other]? <;> rfl
  · rfl

lemma size_records_bury : (s.bury terms id position).records.size = s.records.size :=
  Array.size_modify

lemma chains_bury : (s.bury terms id position).chains = discountAll s.chains terms := by
  rw [bury]

lemma size_chains_bury : (s.bury terms id position).chains.size = s.chains.size := by
  rw [chains_bury]
  exact size_updateAll

lemma chainAt_bury (hhandles : ∀ p, terms.get p < s.chains.size) (handle : Nat) (p : Position) :
    (s.bury terms id position).chainAt handle p =
      if terms.get p = handle then
        { s.chainAt handle p with count := (s.chainAt handle p).count - 1 }
      else s.chainAt handle p := by
  rw [chainAt, chains_bury]
  exact chainIn_updateAll hhandles handle p

lemma isChain_bury (hterms : s.terms? id = some terms)
    (hhandles : ∀ p, terms.get p < s.chains.size) {handle : Nat} {p : Position} {l : List Nat}
    (hl : IsChain s handle p l) : IsChain (s.bury terms id position) handle p l := by
  have hhead : ((s.bury terms id position).chainAt handle p).head = (s.chainAt handle p).head := by
    rw [chainAt_bury hhandles]
    split
    · rfl
    · rfl
  refine ⟨?_, ?_, ?_, ?_⟩
  · rw [nextOf_bury, hhead]
    exact hl.linked
  · intro other found hother
    rw [terms?_bury] at hother
    split at hother
    next => cases hother
    next => exact hl.live_mem_iff hother
  · intro other hmem hdead
    rw [terms?_bury] at hdead
    refine Array.mem_push.2 ?_
    split at hdead
    next heq => exact Or.inr heq
    next => exact Or.inl (hl.dead_mem hmem hdead)
  · have hfilter : l.filter (isLiveAt (s.bury terms id position).records) =
        (l.filter (isLiveAt s.records)).erase id := by
      rw [List.Nodup.erase_eq_filter (hl.linked.nodup.filter _), List.filter_filter]
      refine List.filter_congr ?_
      intro other _
      rw [isLiveAt_bury]
      split
      next heq => simp [heq]
      next hne => simp [hne]
    have hmem : id ∈ l.filter (isLiveAt s.records) ↔ terms.get p = handle := by
      rw [List.mem_filter, hl.live_mem_iff hterms]
      exact and_iff_left (isLiveAt_of_terms? hterms)
    rw [hfilter, List.length_erase, chainAt_bury hhandles, ← hl.count_eq]
    by_cases hhandle : terms.get p = handle
    · rw [if_pos hhandle, if_pos (hmem.2 hhandle)]
    · rw [if_neg hhandle, if_neg fun h => hhandle (hmem.1 h)]

variable [Text.Hasher]

lemma Sound.indexed_bury (h : s.Sound) (hterms : s.terms? id = some terms)
    (hentry : s.index[position]? = some (.entry id)) : Indexed (s.bury terms id position) := by
  have hsize : (s.bury terms id position).index.size = s.index.size := Array.size_setIfInBounds
  have hused : occupied (s.bury terms id position).index = occupied s.index :=
    occupied_setIfInBounds_taken rfl (by rw [hentry]; simp)
  have hcount : ∀ other, (s.bury terms id position).index.count (.entry other) =
      s.index.count (.entry other) - if id = other then 1 else 0 := count_delete hentry
  have hcounts : ∀ other, (s.bury terms id position).index.count (.entry other) =
      if isLiveAt (s.bury terms id position).records other = true then 1 else 0 := fun other => by
    rw [hcount, isLiveAt_bury, h.entry_count]
    by_cases heq : other = id
    · subst heq
      simp [isLiveAt_of_terms? hterms]
    · simp [heq, Ne.symm heq]
  refine { placed := ?_, entry_count := hcounts, distinct := ?_,
           used_eq := h.used_eq.trans hused.symm, uncrowded := hsize ▸ h.uncrowded,
           two_le_size := hsize ▸ h.two_le_size }
  · refine (h.placed.delete position).congr ?_
    intro other hmem
    have hne : other ≠ id := by
      rintro rfl
      have hpos := Array.count_pos_iff.2 hmem
      rw [show ((s.index.setIfInBounds position .deleted).count (.entry other)) = _ from
        hcounts other, isLiveAt_bury, if_pos rfl] at hpos
      simp at hpos
    rw [hashAt, hashAt, terms?_bury, if_neg hne]
  · intro a b found ha hb
    rw [terms?_bury] at ha hb
    split at ha <;> split at hb
    next => cases ha
    next => cases ha
    next => cases hb
    next => exact h.distinct ha hb

/-- **Making a tombstone keeps the invariant.** -/
theorem Sound.bury (h : s.Sound) (hterms : s.terms? id = some terms)
    (hentry : s.index[position]? = some (.entry id)) : (s.bury terms id position).Sound := by
  refine { toThreaded := ⟨?_, ?_⟩,
           toNumbered := ⟨?_, ?_⟩, toIndexed := h.indexed_bury hterms hentry,
           live_eq := ?_ }
  · intro handle p
    obtain ⟨l, hl⟩ := h.exists_chain handle p
    exact ⟨l, isChain_bury hterms (h.lt_handles hterms) hl⟩
  · intro other found hother p
    rw [terms?_bury] at hother
    rw [size_chains_bury]
    split at hother
    next => cases hother
    next => exact h.lt_handles hother p
  · change (s.free.toList ++ (s.zombies.push id).toList).Nodup
    have hperm : (s.free.toList ++ (s.zombies.push id).toList).Perm
        (id :: (s.free.toList ++ s.zombies.toList)) := by
      rw [Array.toList_push, ← List.append_assoc]
      exact List.perm_append_comm
    rw [hperm.nodup_iff, List.nodup_cons, List.mem_append, Array.mem_toList_iff,
      Array.mem_toList_iff, h.unused_iff, hterms]
    exact ⟨fun hdead => (by cases hdead.2), h.nodup⟩
  · intro other
    rw [terms?_bury, size_records_bury]
    change (other ∈ s.free ∨ other ∈ s.zombies.push id) ↔ _
    rw [Array.mem_push, ← or_assoc, h.unused_iff]
    by_cases heq : other = id
    · subst heq
      simpa using lt_size_of_isLiveAt (isLiveAt_of_terms? hterms)
    · simp [heq]
  · have hset : liveSet (s.bury terms id position).records = (liveSet s.records).erase id := by
      ext other
      rw [mem_liveSet, isLiveAt_bury, Finset.mem_erase, mem_liveSet]
      split
      next heq => simp [heq]
      next hne => simp [hne]
    rw [hset, Finset.card_erase_of_mem (mem_liveSet.2 (isLiveAt_of_terms? hterms)), ← h.live_eq]
    rfl

end Bury

/-! ## Sweeping -/

variable [Text.Hasher]

/-- A sweep leaves every chain with its live records, and changes the links of live records only. -/
lemma Sound.sweep_swept (h : s.Sound) :
    (∀ handle p, Linked (nextOf s.sweep.records p) (s.sweep.chainAt handle p).head
        ((s.chain handle p).filter (isLiveAt s.records))) ∧
      (∀ handle p, (s.sweep.chainAt handle p).count = (s.chainAt handle p).count) ∧
      s.sweep.chains.size = s.chains.size ∧
      Relinked (fun _ id => isLiveAt s.records id = true) s.records s.sweep.records := by
  have hlists := fun handle p => h.isChain handle p
  refine Statements.sweep_swept (fun handle p => (hlists handle p).linked)
    (fun handle p => h.length_le (hlists handle p)) ?_
  intro handle other p id hlive hmem hmem'
  obtain ⟨terms, hterms⟩ := isLiveAt_iff.1 hlive
  rw [(hlists handle p).live_mem_iff hterms] at hmem
  rw [(hlists other p).live_mem_iff hterms] at hmem'
  exact hmem.symm.trans hmem'

/-- **A sweep keeps the invariant**, the handles of all records, and leaves no tombstone in a
chain. -/
theorem Sound.sweep (h : s.Sound) :
    s.sweep.Sound ∧ (∀ other, s.sweep.terms? other = s.terms? other) ∧
      s.sweep.chains.size = s.chains.size ∧ s.sweep.zombies = #[] ∧ s.sweep.live = s.live := by
  have hlists := fun handle p => h.isChain handle p
  obtain ⟨hlinked, hcount, hsize, hrelinked⟩ := h.sweep_swept
  have hterms : ∀ other, s.sweep.terms? other = s.terms? other := hrelinked.terms_eq
  have hlive := hrelinked.isLiveAt_eq
  have hindex : s.sweep.index = s.index := by rw [sweep_eq]
  have hused : s.sweep.used = s.used := by rw [sweep_eq]
  have hlive_eq : s.sweep.live = s.live := by rw [sweep_eq]
  have hfree : s.sweep.free = s.free ++ s.zombies := by rw [sweep_eq]
  have hzombies : s.sweep.zombies = #[] := by rw [sweep_eq]
  refine ⟨{ exists_chain := fun handle p => ⟨_, hlinked handle p, ?_, ?_, ?_⟩,
            lt_handles := ?_, nodup := ?_, unused_iff := ?_, placed := ?_,
            entry_count := ?_, distinct := ?_, used_eq := ?_, uncrowded := ?_, two_le_size := ?_,
            live_eq := ?_ }, hterms, hsize, hzombies, hlive_eq⟩
  · intro id terms hid
    rw [hterms] at hid
    rw [List.mem_filter, (hlists handle p).live_mem_iff hid, isLiveAt_of_terms? hid]
    simp
  · intro id hmem hdead
    rw [hterms, ← isLiveAt_eq_false_iff] at hdead
    rw [List.mem_filter, hdead] at hmem
    cases hmem.2
  · rw [hcount, (hlists handle p).count_eq, hlive, List.filter_filter]
    simp
  · intro id terms hid
    rw [hterms] at hid
    rw [hsize]
    exact h.lt_handles hid
  · rw [hfree, hzombies, Array.toList_append]
    simpa using h.nodup
  · intro other
    rw [hfree, hzombies, hterms, hrelinked.size_eq, ← h.unused_iff]
    simp
  · rw [hindex]
    refine h.placed.congr ?_
    intro other _
    rw [hashAt, hashAt, hterms]
  · rw [hindex, hlive]
    exact h.entry_count
  · intro a b found ha hb
    rw [hterms] at ha hb
    exact h.distinct ha hb
  · rw [hused, hindex]
    exact h.used_eq
  · rw [hused, hindex]
    exact h.uncrowded
  · rw [hindex]
    exact h.two_le_size
  · have hset : liveSet s.sweep.records = liveSet s.records := by
      ext other
      rw [mem_liveSet, hlive, mem_liveSet]
    rw [hlive_eq, hset]
    exact h.live_eq

/-! ## Removing -/

/-- A live record is made a tombstone, and then there may be a sweep. -/
lemma Sound.remove_eq (h : s.Sound) (hterms : s.terms? id = some terms) :
    ∃ position, s.index[position]? = some (.entry id) ∧ s.remove id = (true,
      if (s.bury terms id position).live ≤ (s.bury terms id position).zombies.size then
        (s.bury terms id position).sweep else s.bury terms id position) := by
  obtain ⟨position, hsearch, hentry⟩ := h.search_found hterms
  refine ⟨position, hentry, ?_⟩
  rw [remove, hterms]
  dsimp only
  rw [hsearch]
  dsimp only
  rw [if_pos rfl]

/-- **What a removal can do.**  It finds no live record, or it makes the record a tombstone and
leaves all others as they are. -/
theorem Sound.remove_cases (h : s.Sound) (id : Nat) :
    (s.terms? id = none ∧ s.remove id = (false, s)) ∨
    ((s.terms? id).isSome ∧ ∃ s', s.remove id = (true, s') ∧ s'.Sound ∧ s'.Settled ∧
      (∀ other, s'.terms? other = if other = id then none else s.terms? other) ∧
      s'.chains.size = s.chains.size) := by
  cases hterms : s.terms? id with
  | none => exact Or.inl ⟨rfl, by rw [remove, hterms]⟩
  | some terms =>
    obtain ⟨position, hentry, hremove⟩ := h.remove_eq hterms
    have hburied := h.bury hterms hentry
    have hsize : (s.bury terms id position).chains.size = s.chains.size := size_chains_bury
    refine Or.inr ⟨rfl, ?_⟩
    rw [hremove]
    refine ⟨_, rfl, ?_⟩
    split
    next =>
      obtain ⟨hsound, hsame, hchains, hzombies, -⟩ := hburied.sweep
      exact ⟨hsound, Or.inl (by rw [hzombies]; rfl),
        fun other => (hsame other).trans (terms?_bury other), hchains.trans hsize⟩
    next hfew => exact ⟨hburied, Or.inr (Nat.not_le.1 hfew), terms?_bury, hsize⟩

end QuadBase.Store.Statements
