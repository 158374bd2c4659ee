import QuadBase.Proofs.Index.Checked
import QuadBase.Proofs.Store.Trails
import QuadBase.Proofs.Tables

/-!
# Statements, with every access checked

What the statements of a store do, with a mishap where a record, a handle or a slot is not there,
where a counter leaves the range of machine words, and where a record number does.  The loops take
as many steps at most as those of the statements do.

Besides soundness this takes two facts that `Bounded` adds.  There are no more records than numbers,
and **no record links to a number that is none**.  The latter holds of all records, those that are
free included, so a sweep and a walk may follow any link they meet.

* `Sound.checkedInsert_eq`, `Sound.checkedRemove_eq` — **insertions and removals have no mishap**,
  and keep the bounds.
-/

namespace QuadBase.Store.Statements

open QuadBase.Index QuadBase.Rdf

/-! ## Accesses -/

def recordAt (records : Array Statement) (id : Nat) : Checked Statement :=
  elementAt .danglingRecord records id

def chainsAt (chains : Array (PerPosition Chain)) (handle : Nat) : Checked (PerPosition Chain) :=
  elementAt .danglingHandle chains handle

section Accesses

variable {records : Array Statement} {chains : Array (PerPosition Chain)} {id handle : Nat}

lemma recordAt_eq (h : id < records.size) :
    ∃ record, records[id]? = some record ∧ recordAt records id = .ok record :=
  ⟨records[id], Array.getElem?_eq_getElem h, elementAt_eq_ok (Array.getElem?_eq_getElem h)⟩

lemma chainsAt_eq (h : handle < chains.size) : ∃ entry, chainsAt chains handle = .ok entry ∧
    ∀ p, entry.get p = chainIn chains handle p := by
  have hentry := Array.getElem?_eq_getElem h
  refine ⟨chains[handle], elementAt_eq_ok hentry, fun p => ?_⟩
  rw [chainIn, hentry, Option.getD_some]

end Accesses

/-! ## Insertion -/

variable [Text.Hasher]

/-- Searches for a record with these handles.  A tombstone has those of no handle. -/
def checkedSearch (s : Statements) (terms : Option (PerPosition Nat)) : Checked (Probe Nat) :=
  checkedProbe s.index (hashTerms (terms.getD (.all (wordBound - 1)))) fun id => do
    return (← recordAt s.records id).terms == terms

def checkedFind? (s : Statements) (terms : PerPosition Nat) : Checked (Option Nat) := do
  match ← s.checkedSearch (some terms) with
  | .found _ id => return some id
  | _ => return none

/-- Enters the live records anew, which drops all deletion markers. -/
def checkedRebuildIndex (s : Statements) : Checked Statements := do
  let index ← checkedEnterAll (fun record : Statement => record.terms.map hashTerms) s.records 0
    (rebuiltSize s.live s.index.size)
  return { s with index, used := s.live }

def checkedMakeRoom (s : Statements) (terms : PerPosition Nat) (position : Nat) :
    Checked (Statements × Nat) := do
  let slot ← elementAt .danglingSlot s.index position
  if slot = .empty ∧ isCrowded (s.used + 1) s.index.size then
    let s ← s.checkedRebuildIndex
    let position ← checkedVacant s.index (hashTerms terms)
    return (s, position)
  else return (s, position)

/-- The heads of the chains of four handles. -/
def checkedHeads (chains : Array (PerPosition Chain)) (terms : PerPosition Nat) :
    Checked (PerPosition (Option Nat)) := do
  let subject ← chainsAt chains terms.subject
  let predicate ← chainsAt chains terms.predicate
  let object ← chainsAt chains terms.object
  let graph ← chainsAt chains terms.graph
  return ⟨subject.subject.head, predicate.predicate.head, object.object.head, graph.graph.head⟩

/-- Changes the chains of four handles, each of which has to pass a check. -/
def checkedUpdateAll (check : Chain → Checked Unit) (f : Chain → Chain)
    (chains : Array (PerPosition Chain)) (terms : PerPosition Nat) :
    Checked (Array (PerPosition Chain)) :=
  terms.toList.foldlM (fun chains (p, handle) => do
    let entry ← chainsAt chains handle
    check (entry.get p)
    return chains.modify handle (·.modify p f)) chains

def checkedEnter (s : Statements) (terms : PerPosition Nat) (id position : Nat) :
    Checked Statements := do
  let next ← checkedHeads s.chains terms
  let chains ← checkedUpdateAll (fun c => ensure (c.count + 1 < wordBound) .overflow)
    (Chain.link id) s.chains terms
  let slot ← elementAt .danglingSlot s.index position
  let index ← checkedSet s.index position (← slotNumber id)
  return { s with
    records := putRecord s.records id ⟨some terms, next⟩
    chains
    index
    used := if slot = .empty then s.used + 1 else s.used
    live := s.live + 1 }

def checkedInsert (s : Statements) (terms : PerPosition Nat) :
    Checked (Except StoreError Bool × Statements) := do
  match ← s.checkedSearch (some terms) with
  | .found _ _ => return (.ok false, s)
  | .exhausted => throw .endless
  | .vacant position =>
    let (s, position) ← s.checkedMakeRoom terms position
    match s.takeNumber with
    | (none, s) => return (.error (.capacityExceeded .statements capacity), s)
    | (some id, s) =>
      let s ← s.checkedEnter terms id position
      return (.ok true, s)

/-! ## Removal -/

section Removal

omit [Text.Hasher]

def checkedBury (s : Statements) (terms : PerPosition Nat) (id position : Nat) :
    Checked Statements := do
  let index ← checkedSet s.index position .deleted
  let chains ← checkedUpdateAll (fun c => ensure (0 < c.count) .underflow)
    (fun c => { c with count := c.count - 1 }) s.chains terms
  ensure (id < s.records.size) .danglingRecord
  let live ← decreased s.live
  return { s with
    records := s.records.modify id fun record => { record with terms := none }
    chains
    index
    live
    zombies := s.zombies.push id }

def checkedSweepFrom (p : Position) :
    (steps : Nat) → (previous current head : Option Nat) → Array Statement →
      Checked (Option Nat × Array Statement)
  | 0, _, _, head, records => .ok (head, records)
  | _, _, none, head, records => .ok (head, records)
  | steps + 1, previous, some id, head, records => do
    let record ← recordAt records id
    let next := record.next.get p
    if record.isLive then checkedSweepFrom p steps (some id) next head records
    else match previous with
      | none => checkedSweepFrom p steps none next next records
      | some last => do
        ensure (last < records.size) .danglingRecord
        checkedSweepFrom p steps previous next head (setNext records p last next)

def checkedSweepChain (chains : PerPosition Chain) (records : Array Statement) (p : Position) :
    Checked (PerPosition Chain × Array Statement) := do
  let head := (chains.get p).head
  let (head, records) ← checkedSweepFrom p records.size none head head records
  return (chains.modify p fun c => { c with head }, records)

def checkedSweepHandle (chains : PerPosition Chain) (records : Array Statement) :
    Checked (PerPosition Chain × Array Statement) :=
  [Position.subject, .predicate, .object, .graph].foldlM
    (fun (chains, records) p => checkedSweepChain chains records p) (chains, records)

def checkedSweep (s : Statements) : Checked Statements := do
  let (chains, records) ← s.chains.toList.foldlM (fun (done, records) chains => do
    let (chains, records) ← checkedSweepHandle chains records
    return (done.push chains, records)) (#[], s.records)
  return { s with records, chains, free := s.free ++ s.zombies, zombies := #[] }

end Removal

def checkedRemove (s : Statements) (id : Nat) : Checked (Bool × Statements) := do
  let record ← recordAt s.records id
  match ← s.checkedSearch record.terms, record.terms with
  | .found position found, some terms =>
    if found = id then
      let s ← s.checkedBury terms id position
      let s ← if s.live ≤ s.zombies.size then s.checkedSweep else pure s
      return (true, s)
    else return (false, s)
  | _, _ => return (false, s)

/-! ## Searching -/

section Search

variable {s : Statements} {terms : PerPosition Nat}

/-- The index can be searched, and each of its entries names a record. -/
structure Searchable (s : Statements) : Prop where
  slots : Index.Searchable s.index
  entry_lt : ∀ {id}, .entry id ∈ s.index → id < s.records.size

/-- The index names records only, so a search can look at each that it meets. -/
lemma Searchable.checkedSearch_eq_probe (h : s.Searchable)
    (terms : Option (PerPosition Nat)) : s.checkedSearch terms =
      .ok (probe s.index (hashTerms (terms.getD (.all (wordBound - 1)))) fun id =>
        s.terms? id == terms) := by
  refine checkedProbe_eq h.slots _ ?_
  intro id hmem
  obtain ⟨record, hrecord, hat⟩ := recordAt_eq (h.entry_lt hmem)
  rw [hat, ok_bind, terms?, hrecord]
  rfl

lemma Searchable.checkedSearch_eq (h : s.Searchable) (terms : PerPosition Nat) :
    s.checkedSearch (some terms) = .ok (s.search terms) :=
  h.checkedSearch_eq_probe (some terms)

lemma Searchable.checkedFind?_eq (h : s.Searchable) (terms : PerPosition Nat) :
    s.checkedFind? terms = .ok (s.find? terms) := by
  rw [checkedFind?, h.checkedSearch_eq, ok_bind, find?]
  cases s.search terms <;> rfl

lemma Sound.searchable (h : s.Sound) (hsize : s.index.size.isPowerOfTwo) : s.Searchable :=
  ⟨(h.spacious hsize).searchable, fun hmem => lt_size_of_isLiveAt (h.entry_mem_iff.1 hmem)⟩

/-- No tombstone is found. -/
lemma Sound.checkedSearch_none (h : s.Sound) (hsize : s.index.size.isPowerOfTwo) :
    ∃ position, s.checkedSearch none = .ok (.vacant position) := by
  rw [(h.searchable hsize).checkedSearch_eq_probe]
  have hother : ∀ id, .entry id ∈ s.index → (s.terms? id == none) = false := by
    intro id hmem
    obtain ⟨terms, hterms⟩ := isLiveAt_iff.1 (h.entry_mem_iff.1 hmem)
    rw [hterms]
    rfl
  obtain ⟨position, hvacant⟩ := probe_vacant h.empty_mem hother
  exact ⟨position, congrArg _ hvacant⟩

end Search

/-! ## Bounds -/

omit [Text.Hasher] in
/-- No record of an array links to a number that is none. -/
def LinksWithin (records : Array Statement) : Prop :=
  ∀ {p id next}, nextOf records p id = some next → next < records.size

omit [Text.Hasher] in
/-- The numbers of all records are machine words, and so are those of the slots that name them. -/
structure Bounded (s : Statements) : Prop where
  size_le : s.records.size ≤ capacity
  links : LinksWithin s.records

/-! ## Inserting -/

section Insert

variable {s : Statements} {terms : PerPosition Nat} {id position : Nat}

omit [Text.Hasher] in
lemma capacity_add_two : capacity + 2 = wordBound := rfl

/-- A chain has fewer records than there are machine words. -/
lemma Sound.count_lt (h : s.Sound) (hb : s.Bounded) (handle : Nat) (p : Position) :
    (s.chainAt handle p).count + 1 < wordBound := by
  have hl := h.isChain handle p
  have hlength := h.length_le hl
  have hfilter := List.length_filter_le (isLiveAt s.records) (s.chain handle p)
  have hsize := hb.size_le
  have hbound := capacity_add_two
  rw [hl.count_eq]
  omega

omit [Text.Hasher] in
/-- A change of the chains of one position does not touch those of another. -/
lemma chainIn_modify_of_ne {chains : Array (PerPosition Chain)} {changed handle : Nat}
    {q p : Position} {f : Chain → Chain} (hne : p ≠ q) :
    chainIn (chains.modify changed (·.modify q f)) handle p = chainIn chains handle p := by
  rw [chainIn, Array.getElem?_modify, chainIn]
  split
  next =>
    cases chains[handle]? with
    | none => rfl
    | some entry => exact (PerPosition.get_modify _ _ _ _).trans (if_neg hne)
  next => rfl

omit [Text.Hasher] in
/-- The chains that are still to be changed, of distinct positions, are there and pass a check. -/
structure Changeable (check : Chain → Checked Unit) (chains : Array (PerPosition Chain))
    (entries : List (Position × Nat)) : Prop where
  nodup : (entries.map Prod.fst).Nodup
  lt_size : ∀ e ∈ entries, e.2 < chains.size
  passes : ∀ e ∈ entries, check (chainIn chains e.2 e.1) = .ok ()

omit [Text.Hasher] in
/-- A change does not touch the chains that are still to be changed. -/
lemma Changeable.modify {check : Chain → Checked Unit} {chains : Array (PerPosition Chain)}
    {p : Position} {handle : Nat} {entries : List (Position × Nat)}
    (h : Changeable check chains ((p, handle) :: entries)) (f : Chain → Chain) :
    Changeable check (chains.modify handle (·.modify p f)) entries := by
  have hnodup := h.nodup
  rw [List.map_cons, List.nodup_cons] at hnodup
  refine ⟨hnodup.2, fun e he => ?_, fun e he => ?_⟩
  · rw [Array.size_modify]
    exact h.lt_size e (List.mem_cons_of_mem _ he)
  · have hne : e.1 ≠ p := fun heq => hnodup.1 (List.mem_map.2 ⟨e, he, heq⟩)
    rw [chainIn_modify_of_ne hne]
    exact h.passes e (List.mem_cons_of_mem _ he)

omit [Text.Hasher] in
lemma checkedUpdateAll_eq {check : Chain → Checked Unit} {f : Chain → Chain}
    {chains : Array (PerPosition Chain)} (hlt : ∀ p, terms.get p < chains.size)
    (hcheck : ∀ p, check (chainIn chains (terms.get p) p) = .ok ()) :
    checkedUpdateAll check f chains terms = .ok (updateAll chains terms f) := by
  have hentries : Changeable check chains terms.toList := by
    refine ⟨by simp [PerPosition.toList], ?_, ?_⟩
    · rintro ⟨p, handle⟩ he
      exact PerPosition.mem_toList.1 he ▸ hlt p
    · rintro ⟨p, handle⟩ he
      exact PerPosition.mem_toList.1 he ▸ hcheck p
  refine (foldlM_eq_ok (Changeable check) ?_ hentries).1
  rintro chains ⟨p, handle⟩ entries h
  obtain ⟨entry, hentry, hget⟩ := chainsAt_eq (h.lt_size _ List.mem_cons_self)
  have hpasses := h.passes _ List.mem_cons_self
  dsimp only at hentry hget hpasses ⊢
  rw [hentry, ok_bind, hget, hpasses]
  exact ⟨rfl, h.modify f⟩

omit [Text.Hasher] in
lemma checkedHeads_eq (hlt : ∀ p, terms.get p < s.chains.size) : checkedHeads s.chains terms =
    .ok ⟨(s.chainAt terms.subject .subject).head, (s.chainAt terms.predicate .predicate).head,
      (s.chainAt terms.object .object).head, (s.chainAt terms.graph .graph).head⟩ := by
  obtain ⟨subject, hs, hsget⟩ := chainsAt_eq (hlt .subject)
  obtain ⟨predicate, hp, hpget⟩ := chainsAt_eq (hlt .predicate)
  obtain ⟨object, ho, hoget⟩ := chainsAt_eq (hlt .object)
  obtain ⟨graph, hg, hgget⟩ := chainsAt_eq (hlt .graph)
  have hsget := hsget .subject
  have hpget := hpget .predicate
  have hoget := hoget .object
  have hgget := hgget .graph
  simp only [PerPosition.get] at hs hp ho hg hsget hpget hoget hgget
  rw [checkedHeads, hs, ok_bind, hp, ok_bind, ho, ok_bind, hg, ok_bind, hsget, hpget, hoget, hgget]
  rfl

omit [Text.Hasher] in
/-- A record can be entered wherever there is a slot for it. -/
lemma checkedEnter_eq (hlt : ∀ p, terms.get p < s.chains.size)
    (hcount : ∀ handle p, (s.chainAt handle p).count + 1 < wordBound) {slot : Slot Nat}
    (hslot : s.index[position]? = some slot) (hword : id + 1 < wordBound - 1) :
    s.checkedEnter terms id position = .ok (s.enter terms id position) := by
  rw [checkedEnter, checkedHeads_eq hlt, ok_bind,
    checkedUpdateAll_eq hlt fun p => ensure_eq_ok (hcount _ p), ok_bind, elementAt_eq_ok hslot,
    ok_bind, slotNumber_eq_ok hword, ok_bind, checkedSet_eq_ok hslot, ok_bind]
  simp only [enter, hslot, Option.some.injEq]
  rfl

lemma checkedRebuildIndex_eq (h : s.Sound) (hb : s.Bounded) (hsize : s.index.size.isPowerOfTwo) :
    s.checkedRebuildIndex = .ok s.rebuildIndex := by
  have hused := h.card_le_used
  have huncrowded := h.uncrowded
  have hcount := hb.size_le
  have hbound := capacity_add_two
  have hlive : (s.records.toList.countP fun record => (record.terms.map hashTerms).isSome) =
      (liveSet s.records).card := by
    rw [card_liveSet]
    exact List.countP_congr fun record _ => by rw [Option.isSome_map]; rfl
  have hle := le_rebuiltSize s.live s.index.size
  have hentered : (enterFrom (fun record : Statement => record.terms.map hashTerms)
      s.records.toList (emptySlots (rebuiltSize s.live s.index.size), 0)).1 =
      enterAll s.records (rebuiltSize s.live s.index.size) := by
    rw [enterFrom, enterAll, ← Array.foldl_toList]
    congr 2
    funext state record
    cases record.terms <;> rfl
  rw [checkedRebuildIndex, checkedEnterAll_eq _ (isPowerOfTwo_rebuiltSize hsize _) (by omega)
    (by omega), ok_bind, hentered]
  rfl

/-- Making room has no mishap. -/
lemma Sound.checkedMakeRoom_eq (h : s.Sound) (hb : s.Bounded) (hsize : s.index.size.isPowerOfTwo)
    {slot : Slot Nat} (hslot : s.index[position]? = some slot) :
    s.checkedMakeRoom terms position = .ok (s.makeRoom terms position) := by
  rw [checkedMakeRoom, elementAt_eq_ok hslot, ok_bind, Statements.makeRoom, hslot]
  simp only [Option.some.injEq]
  split
  next =>
    have hrebuilt := h.rebuildIndex.1.spacious (isPowerOfTwo_rebuildIndex hsize)
    obtain ⟨position', hchecked, hvacant, -⟩ :=
      checkedVacant_eq hrebuilt.searchable (hashTerms terms)
    rw [checkedRebuildIndex_eq h hb hsize, ok_bind, hchecked, ok_bind, hvacant]
    rfl
  next => rfl

/-- Chains begin with records. -/
lemma Sound.head_lt (h : s.Sound) {handle : Nat} {p : Position}
    (hhead : (s.chainAt handle p).head = some id) : id < s.records.size := by
  have hl := h.isChain handle p
  have hlinked := hl.linked
  rw [hhead] at hlinked
  refine h.lt_size hl ?_
  cases hchain : s.chain handle p with
  | nil =>
    rw [hchain] at hlinked
    cases hlinked
  | cons first rest =>
    rw [hchain] at hlinked
    cases hlinked
    exact List.mem_cons_self

/-- A new record links to the old heads. -/
lemma Sound.bounded_enter (h : s.Sound) (hb : s.Bounded) (hid : id ≤ s.records.size)
    (hroom : id < capacity) (terms : PerPosition Nat) (position : Nat) :
    (s.enter terms id position).Bounded := by
  have hgrows : (s.enter terms id position).records.size = max s.records.size (id + 1) :=
    size_putRecord hid
  constructor
  · rw [hgrows]
    exact max_le hb.size_le hroom
  · intro p other next hnext
    rw [nextOf_enter hid] at hnext
    refine Nat.lt_of_lt_of_le ?_ (hgrows ▸ le_max_left _ _)
    split at hnext
    next => exact h.head_lt hnext
    next => exact hb.links hnext

/-- **An insertion has no mishap**, and keeps the bounds. -/
theorem Sound.checkedInsert_eq (h : s.Sound) (hb : s.Bounded) (hsize : s.index.size.isPowerOfTwo)
    (hlt : ∀ p, terms.get p < s.chains.size) :
    s.checkedInsert terms = .ok (s.insert terms) ∧ (s.insert terms).2.Bounded := by
  rw [checkedInsert, (h.searchable hsize).checkedSearch_eq, ok_bind, insert]
  cases hsearch : s.search terms with
  | found position id => exact ⟨rfl, hb⟩
  | exhausted => exact absurd hsearch (h.search_ne_exhausted terms)
  | vacant position =>
    obtain ⟨hpath, slot, hslot, hfree⟩ :=
      onPath_of_probe_vacant hsearch (size_pos_of_mem h.empty_mem)
    obtain ⟨index, used, position', hmake, hsound, hroom⟩ := h.makeRoom hpath ⟨slot, hslot, hfree⟩
    obtain ⟨slot', hslot', -⟩ := hroom.free
    have hb' : Bounded { s with index, used } := ⟨hb.size_le, hb.links⟩
    have hbound := capacity_add_two
    have hentered : ∀ id free, id ≤ s.records.size → id < capacity →
        checkedEnter { s with index, used, free } terms id position' =
          .ok (enter { s with index, used, free } terms id position') ∧
        (enter { s with index, used, free } terms id position').Bounded := by
      intro id free hid hfits
      have hbounded := hsound.bounded_enter hb' hid hfits terms position'
      exact ⟨checkedEnter_eq hlt (h.count_lt hb) hslot' (by omega), hbounded.size_le,
        hbounded.links⟩
    dsimp only
    rw [h.checkedMakeRoom_eq hb hsize hslot, ok_bind, hmake]
    dsimp only
    rcases takeNumber_cases { s with index, used } with ⟨id, free, hfreed, htake⟩ |
      ⟨-, hfits, htake⟩ | ⟨-, -, htake⟩
    · have hid := ((h.unused_iff id).1 (Or.inl (hfreed ▸ Array.mem_push_self))).1
      obtain ⟨hchecked, hbounded⟩ := hentered id free hid.le (hid.trans_le hb.size_le)
      rw [htake]
      dsimp only
      rw [hchecked]
      exact ⟨rfl, hbounded⟩
    · obtain ⟨hchecked, hbounded⟩ := hentered _ s.free (le_refl _) hfits
      rw [htake]
      dsimp only
      rw [hchecked]
      exact ⟨rfl, hbounded⟩
    · rw [htake]
      exact ⟨rfl, hb'⟩

end Insert

/-! ## Sweeping -/

section Sweep

omit [Text.Hasher]

variable {records : Array Statement} {p : Position} {id : Nat}

/-- A record may be linked to any number that is one. -/
lemma LinksWithin.setNext (h : LinksWithin records) (hid : id < records.size) {next : Option Nat}
    (hnext : ∀ other ∈ next, other < records.size) : LinksWithin (setNext records p id next) := by
  intro q other target htarget
  rw [size_setNext]
  rw [nextOf_setNext hid] at htarget
  split at htarget
  next => exact hnext target htarget
  next => exact h htarget

lemma checkedSweepFrom_eq (hlinks : LinksWithin records) (steps : Nat)
    (previous current head : Option Nat)
    (hprevious : ∀ id ∈ previous, id < records.size)
    (hcurrent : ∀ id ∈ current, id < records.size) :
    let result := sweepFrom p steps previous current head records
    checkedSweepFrom p steps previous current head records = .ok result ∧
      result.2.size = records.size ∧ LinksWithin result.2 := by
  induction steps generalizing previous current head records with
  | zero => exact ⟨rfl, rfl, hlinks⟩
  | succ steps ih =>
    cases current with
    | none => exact ⟨rfl, rfl, hlinks⟩
    | some id =>
      have hid := hcurrent id rfl
      obtain ⟨record, hrecord, hat⟩ := recordAt_eq hid
      have hnextOf := nextOf_of_getElem? (p := p) hrecord
      have hlive := isLiveAt_of_getElem? hrecord
      have hnext : ∀ other ∈ record.next.get p, other < records.size := fun other hother =>
        hlinks (hnextOf.trans hother)
      simp only [checkedSweepFrom, hat, ok_bind, sweepFrom, hnextOf, hlive]
      split
      next => exact ih hlinks _ _ _ (fun other hother => by cases hother; exact hid) hnext
      next =>
        cases previous with
        | none => exact ih hlinks _ _ _ (fun other hother => by cases hother) hnext
        | some last =>
          have hlast := hprevious last rfl
          have hsize : (setNext records p last (record.next.get p)).size = records.size :=
            size_setNext
          dsimp only
          rw [ensure_eq_ok hlast, ok_bind]
          obtain ⟨hchecked, hsame, hlinks'⟩ := ih (hlinks.setNext hlast hnext) _ _ _
            (fun other hother => hsize ▸ hprevious other hother)
            (fun other hother => hsize ▸ hnext other hother)
          exact ⟨hchecked, hsame.trans hsize, hlinks'⟩

/-- The chains of a handle begin with numbers below a bound. -/
def HeadsWithin (chains : PerPosition Chain) (bound : Nat) : Prop :=
  ∀ {p id}, (chains.get p).head = some id → id < bound

/-- A sweep may go on over the chains of some positions. -/
structure Sweepable (bound : Nat) (state : PerPosition Chain × Array Statement)
    (ps : List Position) : Prop where
  nodup : ps.Nodup
  size_eq : state.2.size = bound
  links : LinksWithin state.2
  heads : ∀ p ∈ ps, ∀ id ∈ (state.1.get p).head, id < bound

lemma Sweepable.checkedSweepChain_eq {bound : Nat} {chains : PerPosition Chain}
    {ps : List Position} (h : Sweepable bound (chains, records) (p :: ps)) :
    checkedSweepChain chains records p = .ok (sweepChain chains records p) ∧
      Sweepable bound (sweepChain chains records p) ps := by
  obtain ⟨hnodup, rfl, hlinks, hheads⟩ := h
  obtain ⟨hp, hnodup⟩ := List.nodup_cons.1 hnodup
  obtain ⟨hchecked, hsize, hlinks'⟩ := checkedSweepFrom_eq (p := p) hlinks records.size none
    (chains.get p).head (chains.get p).head (fun id hid => by cases hid)
    (hheads p List.mem_cons_self)
  refine ⟨?_, hnodup, hsize, hlinks', fun q hq id hid => ?_⟩
  · rw [checkedSweepChain, hchecked]
    rfl
  · have hne : q ≠ p := fun heq => hp (heq ▸ hq)
    rw [sweepChain, PerPosition.get_modify, if_neg hne] at hid
    exact hheads q (List.mem_cons_of_mem _ hq) id hid

lemma checkedSweepHandle_eq {chains : PerPosition Chain} (hlinks : LinksWithin records)
    (hheads : HeadsWithin chains records.size) :
    checkedSweepHandle chains records = .ok (sweepHandle chains records) ∧
      (sweepHandle chains records).2.size = records.size ∧
      LinksWithin (sweepHandle chains records).2 := by
  have hall : Sweepable records.size (chains, records) [.subject, .predicate, .object, .graph] :=
    ⟨by decide, rfl, hlinks, fun _ _ _ hid => hheads hid⟩
  obtain ⟨hchecked, hswept⟩ :=
    foldlM_eq_ok (Sweepable records.size) (fun _ _ _ h => h.checkedSweepChain_eq) hall
  exact ⟨hchecked, hswept.size_eq, hswept.links⟩

/-- A sweep may go on over the chains of some handles. -/
structure SweepableAll (bound : Nat) (state : Array (PerPosition Chain) × Array Statement)
    (rest : List (PerPosition Chain)) : Prop where
  size_eq : state.2.size = bound
  links : LinksWithin state.2
  heads : ∀ chains ∈ rest, HeadsWithin chains bound

lemma foldlM_checkedSweepHandle {bound : Nat} {done : Array (PerPosition Chain)}
    {rest : List (PerPosition Chain)} (h : SweepableAll bound (done, records) rest) :
    (rest.foldlM (fun (done, records) chains => do
      let (chains, records) ← checkedSweepHandle chains records
      return (done.push chains, records)) (done, records) : Checked _) =
        .ok (sweepRest done records rest) ∧
      SweepableAll bound (sweepRest done records rest) [] := by
  refine foldlM_eq_ok (SweepableAll bound) ?_ h
  rintro ⟨done, records⟩ chains rest ⟨rfl, hlinks, hheads⟩
  obtain ⟨hchecked, hsize, hlinks'⟩ :=
    checkedSweepHandle_eq hlinks (hheads chains List.mem_cons_self)
  dsimp only
  rw [hchecked]
  exact ⟨rfl, hsize, hlinks', fun other hother => hheads other (List.mem_cons_of_mem _ hother)⟩

end Sweep

/-- **A sweep has no mishap**, and keeps the bounds. -/
theorem Sound.checkedSweep_eq {s : Statements} (h : s.Sound) (hb : s.Bounded) :
    s.checkedSweep = .ok s.sweep ∧ s.sweep.Bounded := by
  have hheads : ∀ chains ∈ s.chains.toList, HeadsWithin chains s.records.size := by
    intro chains hchains p id hid
    obtain ⟨handle, hhandle⟩ := List.getElem?_of_mem hchains
    rw [Array.getElem?_toList] at hhandle
    have hhead : (s.chainAt handle p).head = some id := by
      rw [chainAt, hhandle]
      exact hid
    exact h.head_lt hhead
  have hall : SweepableAll s.records.size (#[], s.records) s.chains.toList :=
    ⟨rfl, hb.links, hheads⟩
  obtain ⟨hchecked, hswept⟩ := foldlM_checkedSweepHandle hall
  rw [checkedSweep, hchecked, sweep_eq]
  exact ⟨rfl, hswept.size_eq.trans_le hb.size_le, hswept.links⟩

/-! ## Removing -/

section Remove

variable {s : Statements} {terms : PerPosition Nat} {id position : Nat}

/-- A live record counts in each of its chains. -/
lemma Sound.count_pos (h : s.Sound) (hterms : s.terms? id = some terms) (p : Position) :
    0 < (s.chainAt (terms.get p) p).count := by
  have hl := h.isChain (terms.get p) p
  rw [hl.count_eq]
  exact List.length_pos_of_mem
    (List.mem_filter.2 ⟨(hl.live_mem_iff hterms).2 rfl, isLiveAt_of_terms? hterms⟩)

lemma Sound.checkedBury_eq (h : s.Sound) (hterms : s.terms? id = some terms)
    (hentry : s.index[position]? = some (.entry id)) :
    s.checkedBury terms id position = .ok (s.bury terms id position) := by
  have hlive := isLiveAt_of_terms? hterms
  have hpos : 0 < s.live := by
    rw [h.live_eq]
    exact Finset.card_pos.2 ⟨id, mem_liveSet.2 hlive⟩
  rw [checkedBury, checkedSet_eq_ok hentry, ok_bind,
    checkedUpdateAll_eq (h.lt_handles hterms) fun p => ensure_eq_ok (h.count_pos hterms p), ok_bind,
    ensure_eq_ok (lt_size_of_isLiveAt hlive), ok_bind, decreased_eq_ok hpos]
  rfl

omit [Text.Hasher] in
lemma Bounded.bury (hb : s.Bounded) (terms : PerPosition Nat) (id position : Nat) :
    (s.bury terms id position).Bounded := by
  refine ⟨size_records_bury.trans_le hb.size_le, fun {p other next} hnext => ?_⟩
  rw [nextOf_bury] at hnext
  exact size_records_bury.symm ▸ hb.links hnext

/-- **A removal has no mishap**, and keeps the bounds. -/
theorem Sound.checkedRemove_eq (h : s.Sound) (hb : s.Bounded) (hsize : s.index.size.isPowerOfTwo)
    (hid : id < s.records.size) :
    s.checkedRemove id = .ok (s.remove id) ∧ (s.remove id).2.Bounded := by
  obtain ⟨record, hrecord, hat⟩ := recordAt_eq hid
  have hterms? : s.terms? id = record.terms := termsAt_of_getElem? hrecord
  rw [checkedRemove, hat, ok_bind]
  cases hterms : record.terms with
  | none =>
    obtain ⟨position, hsearch⟩ := h.checkedSearch_none hsize
    rw [hsearch, remove, hterms?, hterms]
    exact ⟨rfl, hb⟩
  | some terms =>
    rw [hterms] at hterms?
    obtain ⟨position, hsearch, hentry⟩ := h.search_found hterms?
    rw [(h.searchable hsize).checkedSearch_eq, hsearch, ok_bind, remove, hterms?]
    dsimp only
    rw [hsearch]
    dsimp only
    rw [if_pos rfl, if_pos rfl, h.checkedBury_eq hterms? hentry, ok_bind]
    have hburied := hb.bury terms id position
    split
    next =>
      obtain ⟨hchecked, hbounded⟩ := (h.bury hterms? hentry).checkedSweep_eq hburied
      rw [hchecked]
      exact ⟨rfl, hbounded⟩
    next => exact ⟨rfl, hburied⟩

end Remove

end QuadBase.Store.Statements
