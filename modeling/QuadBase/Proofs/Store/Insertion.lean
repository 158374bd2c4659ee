import QuadBase.Proofs.Store.Statements

/-!
# Inserting statements

An insertion of four handles that are not there yet makes room in the index, takes a number, and
enters the record: in front of four chains, under its number, and at a free slot of the index.

* `Indexed.makeRoom` — a slot for one more entry, in the index as it is or in a rebuilt one.
* `takeNumber_cases` — the number is a freed one if there is one, and otherwise a new one.
* `Sound.insert_cases` — **what an insertion can do**.  It fails only if no number is left.
-/

namespace QuadBase.Store.Statements

open QuadBase.Index QuadBase.Rdf

/-! ## Changing four chains -/

/-- Changes the chains of four handles. -/
def updateAll (chains : Array (PerPosition Chain)) (terms : PerPosition Nat) (f : Chain → Chain) :
    Array (PerPosition Chain) :=
  terms.toList.foldl (fun chains (p, handle) => chains.modify handle (·.modify p f)) chains

section UpdateAll

variable {chains : Array (PerPosition Chain)} {terms : PerPosition Nat} {f : Chain → Chain}

lemma chainIn_modify {changed : Nat} {q : Position} (hlt : changed < chains.size) (handle : Nat)
    (p : Position) : chainIn (chains.modify changed (·.modify q f)) handle p =
      if p = q then (if changed = handle then f (chainIn chains handle p)
        else chainIn chains handle p)
      else chainIn chains handle p := by
  rw [chainIn, Array.getElem?_modify]
  by_cases hhandle : changed = handle
  · subst hhandle
    rw [if_pos rfl, if_pos rfl, chainIn, Array.getElem?_eq_getElem hlt]
    exact PerPosition.get_modify _ _ _ _
  · rw [if_neg hhandle, if_neg hhandle, ite_self]
    rfl

lemma size_updateAll : (updateAll chains terms f).size = chains.size := by
  simp [updateAll, PerPosition.toList]

/-- Each of the four handles has one of its chains changed. -/
lemma chainIn_updateAll (hlt : ∀ p, terms.get p < chains.size) (handle : Nat) (p : Position) :
    chainIn (updateAll chains terms f) handle p =
      if terms.get p = handle then f (chainIn chains handle p) else chainIn chains handle p := by
  have hs := hlt .subject
  have hp := hlt .predicate
  have ho := hlt .object
  have hg := hlt .graph
  simp only [PerPosition.get] at hs hp ho hg
  simp only [updateAll, PerPosition.toList, List.foldl_cons, List.foldl_nil]
  rw [chainIn_modify (by simpa using hg), chainIn_modify (by simpa using ho),
    chainIn_modify (by simpa using hp), chainIn_modify hs]
  cases p <;> rfl

end UpdateAll

/-! ## Putting a record -/

section PutRecord

variable {records : Array Statement} {id : Nat} {record : Statement}

lemma getElem?_putRecord (hid : id ≤ records.size) (other : Nat) :
    (putRecord records id record)[other]? =
      if other = id then some record else records[other]? := by
  rw [putRecord]
  split
  next hlt =>
    rw [Array.getElem?_setIfInBounds]
    by_cases h : id = other
    · subst h
      simp [hlt]
    · rw [if_neg h, if_neg fun heq => h heq.symm]
  next hge =>
    obtain rfl : id = records.size := by omega
    exact Array.getElem?_push

lemma size_putRecord (hid : id ≤ records.size) :
    (putRecord records id record).size = max records.size (id + 1) := by
  rw [putRecord]
  split
  next hlt => rw [Array.size_setIfInBounds]; omega
  next hge => rw [Array.size_push]; omega

lemma lt_size_putRecord_iff (hid : id ≤ records.size) {other : Nat} :
    other < (putRecord records id record).size ↔ other = id ∨ other < records.size := by
  rw [size_putRecord hid]
  omega

lemma termsAt_putRecord (hid : id ≤ records.size) (other : Nat) :
    termsAt (putRecord records id record) other =
      if other = id then record.terms else termsAt records other := by
  rw [termsAt, getElem?_putRecord hid]
  split
  · rfl
  · rfl

lemma nextOf_putRecord (hid : id ≤ records.size) (p : Position) (other : Nat) :
    nextOf (putRecord records id record) p other =
      if other = id then record.next.get p else nextOf records p other := by
  rw [nextOf, getElem?_putRecord hid]
  split
  · rfl
  · rfl

end PutRecord

/-! ## Taking a number -/

/-- **A number is a freed one, or else one that has never been used.** -/
theorem takeNumber_cases (s : Statements) :
    (∃ id free, s.free = free.push id ∧ s.takeNumber = (some id, { s with free })) ∨
    (s.free = #[] ∧ s.records.size < capacity ∧ s.takeNumber = (some s.records.size, s)) ∨
    (s.free = #[] ∧ capacity ≤ s.records.size ∧ s.takeNumber = (none, s)) := by
  obtain ⟨records, chains, index, used, live, free, zombies⟩ := s
  by_cases hempty : free = #[]
  · subst hempty
    by_cases hroom : records.size < capacity
    · exact Or.inr (Or.inl ⟨rfl, hroom, by simp [takeNumber, hroom]⟩)
    · exact Or.inr (Or.inr ⟨rfl, Nat.not_lt.1 hroom, by simp [takeNumber, hroom]⟩)
  · obtain ⟨rest, id, rfl⟩ := Array.eq_push_of_size_ne_zero (Array.size_eq_zero_iff.not.2 hempty)
    exact Or.inl ⟨id, rest, rfl, by simp [takeNumber]⟩

/-! ## Making room -/

/-- The numbers of the live records, whatever they are hashed by, in order. -/
lemma hashedNumbers_records (hash : PerPosition Nat → Nat) (records : Array Statement) :
    (hashedNumbers (fun record : Statement => record.terms.map hash) 0 records.toList).Nodup ∧
      (hashedNumbers (fun record : Statement => record.terms.map hash) 0
        records.toList).toFinset = liveSet records := by
  refine ⟨hashedNumbers_nodup, ?_⟩
  ext id
  rw [List.mem_toFinset, mem_hashedNumbers, mem_liveSet, isLiveAt, Option.any_eq_true]
  simp only [Nat.zero_le, true_and, Nat.sub_zero, Array.getElem?_toList, Option.isSome_map]
  rfl

/-- Counting the live records by going through all of them. -/
lemma card_liveSet (records : Array Statement) :
    (liveSet records).card = records.toList.countP Statement.isLive := by
  obtain ⟨hnodup, hset⟩ := hashedNumbers_records (fun _ => 0) records
  rw [← hset, List.toFinset_card_of_nodup hnodup, length_hashedNumbers]
  exact List.countP_congr fun record _ => by rw [Option.isSome_map]; rfl

variable [Text.Hasher] {s : Statements} {terms : PerPosition Nat}

/-- Entering all live records into enough slots. -/
lemma enterAll_filled (s : Statements) {count : Nat} (hroom : (liveSet s.records).card ≤ count) :
    ∃ live : List Nat, live.Nodup ∧ live.toFinset = liveSet s.records ∧
      Filled s.hashAt (emptySlots count) live (enterAll s.records count) := by
  obtain ⟨hnodup, hset⟩ := hashedNumbers_records hashTerms s.records
  refine ⟨_, hnodup, hset, ?_⟩
  have heq : enterAll s.records count = placeAll s.hashAt (emptySlots count)
      (hashedNumbers (fun record : Statement => record.terms.map hashTerms) 0
        s.records.toList) := by
    rw [enterAll, ← Array.foldl_toList, ← foldl_place_numbers
      (fun record : Statement => record.terms.map hashTerms) s.hashAt]
    · congr 2
      funext entry record
      cases record.terms <;> rfl
    · intro i record hrecord hash hhash
      rw [Array.getElem?_toList] at hrecord
      rw [Nat.zero_add, hashAt, terms?, hrecord, Option.bind_some, hhash, Option.getD_some]
  rw [heq]
  refine placeAll_filled (placed_emptySlots _ _) ?_
  rw [occupied_emptySlots, size_emptySlots, Nat.zero_add, ← List.toFinset_card_of_nodup hnodup,
    hset]
  exact hroom

/-- A rebuilt index is as good as the old one, with room for one more entry. -/
lemma Sound.rebuildIndex (h : s.Sound) :
    s.rebuildIndex.Sound ∧
      (s.rebuildIndex.used + 1) * 3 ≤ s.rebuildIndex.index.size * 2 := by
  have hused := h.card_le_used
  rw [← h.live_eq] at hused
  have huncrowded := h.uncrowded
  have htwo := h.two_le_size
  have hsize : (s.live + 1) * 3 ≤ rebuiltSize s.live s.index.size * 2 ∧
      s.index.size ≤ rebuiltSize s.live s.index.size := by
    rw [rebuiltSize]
    split
    · omega
    · omega
  have hroom : (liveSet s.records).card ≤ rebuiltSize s.live s.index.size := by
    rw [← h.live_eq]
    omega
  obtain ⟨live, hnodup, hset, hfilled⟩ := enterAll_filled s hroom
  have hmem : ∀ id, id ∈ live ↔ isLiveAt s.records id = true := fun id => by
    rw [← List.mem_toFinset, hset, mem_liveSet]
  have hindex : s.rebuildIndex.index = enterAll s.records (rebuiltSize s.live s.index.size) := rfl
  have hcount : s.rebuildIndex.index.size = rebuiltSize s.live s.index.size := by
    rw [hindex, hfilled.size_eq, size_emptySlots]
  have hoccupied : occupied s.rebuildIndex.index = s.live := by
    rw [hindex, hfilled.occupied_eq, occupied_emptySlots, Nat.zero_add,
      ← List.toFinset_card_of_nodup hnodup, hset, h.live_eq]
  refine ⟨{ exists_chain := ?_, lt_handles := h.lt_handles, nodup := h.nodup,
            unused_iff := h.unused_iff, placed := hfilled.placed, entry_count := ?_,
            distinct := h.distinct, used_eq := hoccupied.symm, uncrowded := ?_,
            two_le_size := ?_, live_eq := h.live_eq }, ?_⟩
  · intro handle p
    obtain ⟨l, hl⟩ := h.exists_chain handle p
    exact ⟨l, hl.linked, hl.live_mem_iff, hl.dead_mem, hl.count_eq⟩
  · intro id
    rw [hindex, hfilled.count_of_emptySlots]
    change live.count id = if isLiveAt s.records id = true then 1 else 0
    by_cases hlive : isLiveAt s.records id = true
    · rw [if_pos hlive, List.count_eq_one_of_mem hnodup ((hmem id).2 hlive)]
    · rw [if_neg hlive, List.count_eq_zero_of_not_mem fun h => hlive ((hmem id).1 h)]
  · rw [hcount]
    exact Nat.le_trans (Nat.mul_le_mul_right 3 (Nat.le_succ _)) hsize.1
  · rw [hcount]
    omega
  · rw [hcount]
    exact hsize.1

/-- A slot where the entry of four handles can be put. -/
structure Room (s : Statements) (terms : PerPosition Nat) (position : Nat) : Prop where
  path : OnPath s.index (hashTerms terms) position
  free : ∃ slot, s.index[position]? = some slot ∧ slot.IsFree
  /-- Taking it does not crowd the index. -/
  fits : (if s.index[position]? = some .empty then s.used + 1 else s.used) * 3 ≤ s.index.size * 2

/-- **There is always room for one more entry.** -/
theorem Sound.makeRoom (h : s.Sound) {position : Nat}
    (hpath : OnPath s.index (hashTerms terms) position)
    (hfree : ∃ slot, s.index[position]? = some slot ∧ slot.IsFree) :
    ∃ index used position', s.makeRoom terms position = ({ s with index, used }, position') ∧
      Sound { s with index, used } ∧ Room { s with index, used } terms position' := by
  rw [Statements.makeRoom]
  split
  next hcrowded =>
    obtain ⟨hsound, hfits⟩ := h.rebuildIndex
    obtain ⟨position', hvacant, hempty, hpath'⟩ :=
      vacant?_eq_some hsound.empty_mem (hashTerms terms)
    dsimp only
    rw [hvacant]
    refine ⟨s.rebuildIndex.index, s.rebuildIndex.used, position', rfl, hsound, hpath',
      ⟨.empty, hempty, trivial⟩, ?_⟩
    rw [if_pos hempty]
    exact hfits
  next huncrowded =>
    refine ⟨s.index, s.used, position, rfl, h, hpath, hfree, ?_⟩
    split
    next hempty =>
      exact isCrowded_eq_false_iff.1 (Bool.not_eq_true _ ▸ fun hc => huncrowded ⟨hempty, hc⟩)
    next => exact h.uncrowded

/-! ## Entering a record -/

/-- The invariant while the number `id` is taken and not in use yet. -/
structure Taken (s : Statements) (id : Nat) : Prop extends Threaded s, Indexed s where
  le_size : id ≤ s.records.size
  terms_eq : s.terms? id = none
  nodup : (s.free.toList ++ s.zombies.toList).Nodup
  unused_iff : ∀ other, other ∈ s.free ∨ other ∈ s.zombies ↔
    other ≠ id ∧ other < s.records.size ∧ s.terms? other = none
  live_eq : s.live = (liveSet s.records).card

/-- **Taking a number fails only if all of them are in use.** -/
theorem Sound.takeNumber (h : s.Sound) :
    (∃ id free, s.takeNumber = (some id, { s with free }) ∧ Taken { s with free } id) ∨
    (s.free = #[] ∧ capacity ≤ s.records.size ∧ s.takeNumber = (none, s)) := by
  have hnodup := h.nodup
  have hunused := h.unused_iff
  -- the stack of free numbers has no part in the rest of the invariant
  have htaken : ∀ {id free}, id ≤ s.records.size → s.terms? id = none →
      (free.toList ++ s.zombies.toList).Nodup →
      (∀ other, other ∈ free ∨ other ∈ s.zombies ↔
        other ≠ id ∧ other < s.records.size ∧ s.terms? other = none) →
      Taken { s with free } id := fun hle hterms hnodup hunused =>
    { exists_chain := fun handle p => by
        obtain ⟨l, hl⟩ := h.exists_chain handle p
        exact ⟨l, hl.linked, hl.live_mem_iff, hl.dead_mem, hl.count_eq⟩
      lt_handles := h.lt_handles, placed := h.placed, entry_count := h.entry_count,
      distinct := h.distinct, used_eq := h.used_eq, uncrowded := h.uncrowded,
      two_le_size := h.two_le_size, le_size := hle, terms_eq := hterms, nodup := hnodup,
      unused_iff := hunused, live_eq := h.live_eq }
  rcases takeNumber_cases s with ⟨id, free, hfree, htake⟩ | ⟨hfree, -, htake⟩ | hnone
  · rw [hfree, Array.toList_push, List.append_assoc] at hnodup
    rw [hfree] at hunused
    have hid := (hunused id).1 (Or.inl Array.mem_push_self)
    have hperm : (free.toList ++ ([id] ++ s.zombies.toList)).Perm
        (id :: (free.toList ++ s.zombies.toList)) := List.perm_middle
    obtain ⟨hnot, hrest⟩ := List.nodup_cons.1 (hperm.nodup_iff.1 hnodup)
    simp only [List.mem_append, Array.mem_toList_iff, not_or] at hnot
    refine Or.inl ⟨id, free, htake, htaken (Nat.le_of_lt hid.1) hid.2 hrest ?_⟩
    intro other
    rw [← hunused other, Array.mem_push]
    constructor
    · rintro (hmem | hmem)
      · exact ⟨fun heq => hnot.1 (heq ▸ hmem), Or.inl (Or.inl hmem)⟩
      · exact ⟨fun heq => hnot.2 (heq ▸ hmem), Or.inr hmem⟩
    · rintro ⟨hne, (hmem | heq) | hmem⟩
      · exact Or.inl hmem
      · exact absurd heq hne
      · exact Or.inr hmem
  · refine Or.inl ⟨s.records.size, s.free, htake, htaken (le_refl _) ?_ hnodup ?_⟩
    · rw [terms?, Array.getElem?_eq_none (le_refl _)]
      rfl
    · intro other
      rw [hunused other]
      exact ⟨fun hdead => ⟨hdead.1.ne, hdead⟩, And.right⟩
  · exact Or.inr hnone

section Enter

variable {id position : Nat}

omit [Text.Hasher] in
lemma terms?_enter (hid : id ≤ s.records.size) (other : Nat) :
    (s.enter terms id position).terms? other =
      if other = id then some terms else s.terms? other :=
  termsAt_putRecord hid other

omit [Text.Hasher] in
lemma isLiveAt_enter (hid : id ≤ s.records.size) (other : Nat) :
    isLiveAt (s.enter terms id position).records other =
      if other = id then true else isLiveAt s.records other := by
  rw [isLiveAt_eq, isLiveAt_eq, ← terms?_eq, terms?_enter hid]
  split
  · rfl
  · rfl

omit [Text.Hasher] in
lemma nextOf_enter (hid : id ≤ s.records.size) (p : Position) (other : Nat) :
    nextOf (s.enter terms id position).records p other =
      if other = id then (s.chainAt (terms.get p) p).head else nextOf s.records p other := by
  refine (nextOf_putRecord hid p other).trans ?_
  cases p <;> rfl

omit [Text.Hasher] in
lemma chains_enter : (s.enter terms id position).chains = linkAll s.chains terms id := by
  rw [enter]

omit [Text.Hasher] in
lemma size_chains_enter : (s.enter terms id position).chains.size = s.chains.size := by
  rw [chains_enter]
  exact size_updateAll

omit [Text.Hasher] in
lemma chainAt_enter (hhandles : ∀ p, terms.get p < s.chains.size) (handle : Nat) (p : Position) :
    (s.enter terms id position).chainAt handle p =
      if terms.get p = handle then Chain.link id (s.chainAt handle p) else s.chainAt handle p := by
  rw [chainAt, chains_enter]
  exact chainIn_updateAll hhandles handle p

/-- The new record is in front of the chains of its handles, and in no other. -/
lemma Taken.isChain_enter (h : s.Taken id) {handle : Nat} {p : Position} {l : List Nat}
    (hl : IsChain s handle p l) (hhandles : ∀ p, terms.get p < s.chains.size) :
    IsChain (s.enter terms id position) handle p
      (if terms.get p = handle then id :: l else l) := by
  have hnot : id ∉ l := fun hmem =>
    ((h.unused_iff id).1 (Or.inr (hl.dead_mem hmem h.terms_eq))).1 rfl
  have hne : ∀ {other}, other ∈ l → other ≠ id := fun hother heq => hnot (heq ▸ hother)
  have hlive : l.filter (isLiveAt (s.enter terms id position).records) =
      l.filter (isLiveAt s.records) := List.filter_congr fun other hother => by
    rw [isLiveAt_enter h.le_size, if_neg (hne hother)]
  have hlinked :
      Linked (nextOf (s.enter terms id position).records p) (s.chainAt handle p).head l :=
    hl.linked.congr fun other hother => by
      rw [nextOf_enter h.le_size, if_neg (hne hother)]
  refine ⟨?_, ?_, ?_, ?_⟩
  · rw [chainAt_enter hhandles]
    split
    next heq =>
      refine .cons ?_
      rw [nextOf_enter h.le_size, if_pos rfl, heq]
      exact hlinked
    next => exact hlinked
  · intro other terms' hother
    rw [terms?_enter h.le_size] at hother
    split at hother
    next heq =>
      subst heq
      obtain rfl := Option.some.inj hother
      split
      next hhandle => simp [hhandle]
      next hhandle => simp [hhandle, hnot]
    next hother' =>
      rw [← hl.live_mem_iff hother]
      split
      · simp [hother']
      · rfl
  · intro other hmem hdead
    rw [terms?_enter h.le_size] at hdead
    split at hdead
    next => cases hdead
    next hother =>
      refine hl.dead_mem ?_ hdead
      split at hmem
      · exact (List.mem_cons.1 hmem).resolve_left hother
      · exact hmem
  · rw [chainAt_enter hhandles]
    split
    next =>
      rw [List.filter_cons_of_pos (by rw [isLiveAt_enter h.le_size, if_pos rfl]), hlive,
        List.length_cons, ← hl.count_eq]
      rfl
    next => rw [hlive, hl.count_eq]

lemma Taken.indexed_enter (h : s.Taken id) (hnew : ∀ id, s.terms? id ≠ some terms)
    (hroom : Room s terms position) : Indexed (s.enter terms id position) := by
  obtain ⟨slot, hslot, hfree⟩ := hroom.free
  have hterms : ∀ other, (s.enter terms id position).terms? other =
      if other = id then some terms else s.terms? other := terms?_enter h.le_size
  have hdead : isLiveAt s.records id = false := isLiveAt_eq_false_iff.2 h.terms_eq
  have hsize : (s.enter terms id position).index.size = s.index.size := Array.size_setIfInBounds
  have hused : (s.enter terms id position).used = occupied (s.enter terms id position).index := by
    change (if s.index[position]? = some .empty then s.used + 1 else s.used) =
      occupied (s.index.setIfInBounds position (.entry id))
    split
    next hempty => rw [occupied_setIfInBounds_empty rfl hempty, h.used_eq]
    next htaken => rw [occupied_setIfInBounds_taken rfl htaken, h.used_eq]
  refine { placed := ?_, entry_count := ?_, distinct := ?_,
           used_eq := hused, uncrowded := ?_, two_le_size := ?_ }
  · have hold : Placed s.index (s.enter terms id position).hashAt :=
      h.placed.congr fun other hmem => by
        have hlive := h.entry_mem_iff.1 hmem
        rw [hashAt, hashAt, hterms, if_neg fun heq => by rw [heq, hdead] at hlive; cases hlive]
    refine hold.enter ?_
    rw [hashAt, hterms, if_pos rfl]
    exact hroom.path
  · intro other
    rw [isLiveAt_enter h.le_size]
    refine (count_enter hslot hfree other).trans ?_
    rw [h.entry_count]
    by_cases heq : other = id
    · subst heq
      simp [hdead]
    · simp [heq, Ne.symm heq]
  · intro a b found ha hb
    rw [hterms] at ha hb
    split at ha <;> split at hb
    next hl hr => rw [hl, hr]
    next => exact absurd (Option.some.inj ha ▸ hb) (hnew b)
    next => exact absurd (Option.some.inj hb ▸ ha) (hnew a)
    next => exact h.distinct ha hb
  · rw [hsize]
    exact hroom.fits
  · rw [hsize]
    exact h.two_le_size

/-- **Entering a record keeps the invariant.** -/
theorem Taken.enter (h : s.Taken id) (hnew : ∀ id, s.terms? id ≠ some terms)
    (hhandles : ∀ p, terms.get p < s.chains.size) (hroom : Room s terms position) :
    (s.enter terms id position).Sound := by
  have hterms : ∀ other, (s.enter terms id position).terms? other =
      if other = id then some terms else s.terms? other := terms?_enter h.le_size
  refine { toThreaded := ⟨?_, ?_⟩,
           toNumbered := ⟨h.nodup, ?_⟩, toIndexed := h.indexed_enter hnew hroom,
           live_eq := ?_ }
  · intro handle p
    obtain ⟨l, hl⟩ := h.exists_chain handle p
    exact ⟨_, h.isChain_enter hl hhandles⟩
  · intro other found hother p
    rw [hterms] at hother
    rw [size_chains_enter]
    split at hother
    next => exact Option.some.inj hother ▸ hhandles p
    next => exact h.lt_handles hother p
  · intro other
    have hlt : other < (s.enter terms id position).records.size ↔
        other = id ∨ other < s.records.size := lt_size_putRecord_iff h.le_size
    rw [hterms, hlt]
    refine (h.unused_iff other).trans ?_
    by_cases heq : other = id
    · simp [heq]
    · simp [heq]
  · have hnot : id ∉ liveSet s.records := by
      rw [mem_liveSet, isLiveAt_eq_false_iff.2 h.terms_eq]
      exact Bool.false_ne_true
    have hset : liveSet (s.enter terms id position).records = (liveSet s.records).cons id hnot := by
      ext other
      rw [mem_liveSet, isLiveAt_enter h.le_size, Finset.mem_cons, mem_liveSet]
      split
      next heq => simp [heq]
      next hne => simp [hne]
    rw [hset, Finset.card_cons, ← h.live_eq]
    rfl

end Enter

/-! ## Inserting -/

/-- **What an insertion can do.**  It finds the statement, adds it under a number that was not in
use, or has no number left. -/
theorem Sound.insert_cases (h : s.Sound) (hhandles : ∀ p, terms.get p < s.chains.size) :
    (∃ id, s.terms? id = some terms ∧ s.insert terms = (.ok false, s)) ∨
    ((∀ id, s.terms? id ≠ some terms) ∧ ∃ id s', s.insert terms = (.ok true, s') ∧ s'.Sound ∧
      s.terms? id = none ∧
      (∀ other, s'.terms? other = if other = id then some terms else s.terms? other) ∧
      s'.chains.size = s.chains.size ∧ s'.zombies = s.zombies ∧ s'.live = s.live + 1) ∨
    ((∀ id, s.terms? id ≠ some terms) ∧ s.free = #[] ∧ capacity ≤ s.records.size ∧
      ∃ index used, Sound { s with index, used } ∧
        s.insert terms = (.error (.capacityExceeded .statements capacity),
          { s with index, used })) := by
  by_cases hold : ∃ id, s.terms? id = some terms
  · obtain ⟨id, hid⟩ := hold
    obtain ⟨position, hsearch, -⟩ := h.search_found hid
    exact Or.inl ⟨id, hid, by rw [insert, hsearch]⟩
  · have hnew : ∀ id, s.terms? id ≠ some terms := fun id hid => hold ⟨id, hid⟩
    obtain ⟨position, hsearch, hpath, hfree⟩ := h.search_vacant hnew
    obtain ⟨index, used, position', hmake, hsound, hroom⟩ := h.makeRoom hpath hfree
    rcases hsound.takeNumber with ⟨id, free, htake, htaken⟩ | ⟨hempty, hfull, htake⟩
    · refine Or.inr (Or.inl ⟨hnew, id, _, ?_, htaken.enter hnew hhandles
        ⟨hroom.path, hroom.free, hroom.fits⟩, htaken.terms_eq, terms?_enter htaken.le_size,
        size_chains_enter, rfl, rfl⟩)
      rw [insert, hsearch]
      dsimp only
      rw [hmake]
      dsimp only
      rw [htake]
    · refine Or.inr (Or.inr ⟨hnew, hempty, hfull, index, used, hsound, ?_⟩)
      rw [insert, hsearch]
      dsimp only
      rw [hmake]
      dsimp only
      rw [htake]

end QuadBase.Store.Statements
