import QuadBase.Proofs.Store.CheckedQueries

/-!
# What an audit vouches for

An audit never looks for a record in a chain.  It makes sure that the live records of a chain use
its handle, and compares numbers.  Nothing is known of the links beforehand: they may lead in
circles, or nowhere.

**One chain.**  A chain that passes is a list without repetition (`auditFrom_eq_ok`), because
following it has come to an end.

**All chains of a position.**  The lists of different handles share no live record, since each of
these uses one handle.  So if they hold as many live records as there are, they hold all of them
(`exists_mem_of_sum`).

**The index.**  If every live record is found under its own number, no two of them are equal
(`indexRest_eq_ok`).

`Audited` is all of this together.

* `Walks` — the loop along a chain as it runs.
* `audit_sound` — **statements without a fault are in order**, and the audit of any statements ends.
-/

namespace QuadBase.Store.Statements

open QuadBase.Index QuadBase.Rdf

/-! ## Following a chain -/

/-- The loop along a chain, from a record on.  It has met `length` records and `live` live ones so
far, and has its result after so many more rounds. -/
inductive Walks (records : Array Statement) (handle : Nat) (p : Position) :
    (length live : Nat) → (current : Option Nat) → (rounds : Nat) → Except Fault Nat → Prop where
  | done {length live : Nat} : Walks records handle p length live none 0 (.ok live)
  | dangling {length live id : Nat} (missing : records[id]? = none) :
      Walks records handle p length live (some id) 1 (.error .danglingLink)
  | cycle {length live id : Nat} {record : Statement} (found : records[id]? = some record)
      (long : records.size < length + 1) :
      Walks records handle p length live (some id) 1 (.error .cycle)
  | wrongChain {length live id : Nat} {record : Statement} {terms : PerPosition Nat}
      (found : records[id]? = some record) (short : length + 1 ≤ records.size)
      (alive : record.terms = some terms) (differs : terms.get p ≠ handle) :
      Walks records handle p length live (some id) 1 (.error .wrongChain)
  | live {length live id rounds : Nat} {record : Statement} {terms : PerPosition Nat}
      {result : Except Fault Nat} (found : records[id]? = some record)
      (short : length + 1 ≤ records.size) (alive : record.terms = some terms)
      (uses : terms.get p = handle)
      (rest : Walks records handle p (length + 1) (live + 1) (record.next.get p) rounds result) :
      Walks records handle p length live (some id) (rounds + 1) result
  | tombstone {length live id rounds : Nat} {record : Statement} {result : Except Fault Nat}
      (found : records[id]? = some record) (short : length + 1 ≤ records.size)
      (dead : record.terms = none)
      (rest : Walks records handle p (length + 1) live (record.next.get p) rounds result) :
      Walks records handle p length live (some id) (rounds + 1) result

section Chains

variable {records : Array Statement} {handle : Nat} {p : Position}

/-- **The loop along a chain ends**, wherever the links lead. -/
theorem exists_walks {steps length : Nat} (hsteps : length + steps = records.size) (live : Nat)
    (current : Option Nat) : ∃ rounds ≤ steps + 1,
      Walks records handle p length live current rounds
        (auditFrom records handle p steps current live) := by
  induction steps generalizing length live current with
  | zero =>
    cases current with
    | none =>
      rw [auditFrom]
      exact ⟨0, Nat.zero_le _, .done⟩
    | some id =>
      rw [auditFrom]
      cases hrecord : records[id]? with
      | none => exact ⟨1, le_refl _, .dangling hrecord⟩
      | some record => exact ⟨1, le_refl _, .cycle hrecord (by omega)⟩
  | succ steps ih =>
    cases current with
    | none =>
      rw [auditFrom]
      exact ⟨0, Nat.zero_le _, .done⟩
    | some id =>
      rw [auditFrom]
      cases hrecord : records[id]? with
      | none => exact ⟨1, by omega, .dangling hrecord⟩
      | some record =>
        have hrest := fun live =>
          ih (show length + 1 + steps = records.size by omega) live (record.next.get p)
        have hshort : length + 1 ≤ records.size := by omega
        cases hterms : record.terms with
        | none =>
          obtain ⟨rounds, hrounds, hwalks⟩ := hrest live
          simp only [hterms]
          exact ⟨rounds + 1, by omega, .tombstone hrecord hshort hterms hwalks⟩
        | some terms =>
          simp only [hterms]
          split
          next huses =>
            obtain ⟨rounds, hrounds, hwalks⟩ := hrest (live + 1)
            exact ⟨rounds + 1, by omega, .live hrecord hshort hterms huses hwalks⟩
          next hdiffers => exact ⟨1, by omega, .wrongChain hrecord hshort hterms hdiffers⟩

/-- The records from `start` on are a list, and the live ones use the handle. -/
structure Passes (records : Array Statement) (handle : Nat) (p : Position) (start : Option Nat)
    (l : List Nat) : Prop where
  linked : Linked (nextOf records p) start l
  lt_size : ∀ id ∈ l, id < records.size
  uses : ∀ id ∈ l, ∀ terms, termsAt records id = some terms → terms.get p = handle

lemma Passes.cons {id : Nat} {record : Statement} {l : List Nat}
    (hrecord : records[id]? = some record)
    (huses : ∀ terms, record.terms = some terms → terms.get p = handle)
    (h : Passes records handle p (record.next.get p) l) :
    Passes records handle p (some id) (id :: l) where
  linked := .cons (by rw [nextOf_of_getElem? hrecord]; exact h.linked)
  lt_size := List.forall_mem_cons.2 ⟨(Array.getElem?_eq_some_iff.1 hrecord).1, h.lt_size⟩
  uses := List.forall_mem_cons.2 ⟨by rwa [termsAt_of_getElem? hrecord], h.uses⟩

/-- **A loop that finds no fault has gone through a list**, and counted its live records. -/
theorem Walks.passes {length live rounds total : Nat} {current : Option Nat}
    (h : Walks records handle p length live current rounds (.ok total)) :
    ∃ l, Passes records handle p current l ∧
      total = live + (l.filter (isLiveAt records)).length := by
  generalize hresult : Except.ok total = result at h
  induction h with
  | done => exact ⟨[], ⟨.nil, List.forall_mem_nil _, List.forall_mem_nil _⟩, Except.ok.inj hresult⟩
  | dangling | cycle | wrongChain => cases hresult
  | @live _ _ id _ record terms _ found _ alive uses _ ih =>
    obtain ⟨l, hl, htotal⟩ := ih hresult
    have hlive : isLiveAt records id = true := by
      rw [isLiveAt_of_getElem? found, Statement.isLive, alive, Option.isSome_some]
    refine ⟨id :: l, hl.cons found ?_, ?_⟩
    · rw [alive]
      rintro _ ⟨⟩
      exact uses
    · rw [List.filter_cons_of_pos hlive, List.length_cons]
      omega
  | @tombstone _ _ id _ record _ found _ dead _ ih =>
    obtain ⟨l, hl, htotal⟩ := ih hresult
    have hdead : ¬ isLiveAt records id = true := by
      rw [isLiveAt_of_getElem? found, Statement.isLive, dead, Option.isSome_none]
      exact Bool.false_ne_true
    refine ⟨id :: l, hl.cons found ?_, ?_⟩
    · rw [dead]
      rintro _ ⟨⟩
    · rwa [List.filter_cons_of_neg hdead]

/-- A chain that has passed the audit. -/
structure Approved (records : Array Statement) (handle : Nat) (p : Position) (c : Chain)
    (l : List Nat) : Prop extends Passes records handle p c.head l where
  count_eq : c.count = (l.filter (isLiveAt records)).length

/-- What precedes a success is a success. -/
lemma exists_of_bind_eq_ok {ε α β : Type} {first : Except ε α} {next : α → Except ε β} {b : β}
    (h : (first >>= next) = .ok b) : ∃ a, first = .ok a ∧ next a = .ok b := by
  cases first with
  | error error => cases h
  | ok a => exact ⟨a, rfl, h⟩

lemma auditChain_eq_ok {c : Chain} {live : Nat} (h : auditChain records handle p c = .ok live) :
    live = c.count ∧ ∃ l, Approved records handle p c l := by
  obtain ⟨total, hfrom, hcount⟩ := exists_of_bind_eq_ok h
  split at hcount
  next heq =>
    obtain rfl := Except.ok.inj hcount
    obtain ⟨rounds, -, hwalks⟩ := exists_walks (Nat.zero_add records.size) 0 c.head
    rw [hfrom] at hwalks
    obtain ⟨l, hl, htotal⟩ := hwalks.passes
    rw [Nat.zero_add] at htotal
    exact ⟨heq, l, hl, heq.symm.trans htotal⟩
  next => cases hcount

/-- The chains of some positions have passed, and their counts are added. -/
lemma foldlM_auditChain_eq_ok {chains : PerPosition Chain} {positions : List Position}
    {listed listed' : PerPosition Nat}
    (h : (positions.foldlM (fun listed p => do
      let live ← auditChain records handle p (chains.get p)
      return listed.modify p (· + live)) listed : Except Fault (PerPosition Nat)) = .ok listed') :
    (∀ p ∈ positions, ∃ l, Approved records handle p (chains.get p) l) ∧
      listed' = positions.foldl (fun listed p => listed.modify p (· + (chains.get p).count))
        listed := by
  induction positions generalizing listed with
  | nil => exact ⟨List.forall_mem_nil _, (Except.ok.inj h).symm⟩
  | cons p positions ih =>
    rw [List.foldlM_cons] at h
    obtain ⟨first, hfirst, h⟩ := exists_of_bind_eq_ok h
    obtain ⟨live, hchain, hadded⟩ := exists_of_bind_eq_ok hfirst
    obtain ⟨rfl, happroved⟩ := auditChain_eq_ok hchain
    obtain rfl := Except.ok.inj hadded
    obtain ⟨hrest, hlisted⟩ := ih h
    exact ⟨List.forall_mem_cons.2 ⟨happroved, hrest⟩, hlisted⟩

/-- The four chains of a handle have passed. -/
lemma auditHandle_eq_ok {chains : PerPosition Chain} {listed listed' : PerPosition Nat}
    (h : auditHandle records handle chains listed = .ok listed') :
    (∀ p, ∃ l, Approved records handle p (chains.get p) l) ∧
      listed' = listed.zipWith (fun n c => n + c.count) chains := by
  obtain ⟨hall, hlisted⟩ := foldlM_auditChain_eq_ok h
  exact ⟨fun p => hall p (by cases p <;> decide), hlisted⟩

/-- The chains of all handles in `rest` have passed. -/
lemma auditRest_eq_ok {rest : List (PerPosition Chain)} {listed : PerPosition Nat}
    {result : PerPosition Nat × Nat} (h : auditRest records rest listed handle = .ok result) :
    (∀ i chains, rest[i]? = some chains → ∀ p,
      ∃ l, Approved records (handle + i) p (chains.get p) l) ∧
    ∀ p, result.1.get p = listed.get p +
      ∑ i ∈ Finset.range rest.length, ((rest[i]?.getD noChains).get p).count := by
  induction rest generalizing listed handle with
  | nil =>
    obtain rfl := Except.ok.inj h
    exact ⟨fun i _ hnone => (by cases hnone), fun p => (by simp)⟩
  | cons chains rest ih =>
    rw [auditRest, List.foldlM_cons] at h
    obtain ⟨next, hnext, h⟩ := exists_of_bind_eq_ok h
    obtain ⟨added, hhandle, hnext⟩ := exists_of_bind_eq_ok hnext
    obtain rfl := Except.ok.inj hnext
    obtain ⟨hfirst, rfl⟩ := auditHandle_eq_ok hhandle
    obtain ⟨hrest, hget⟩ := ih h
    constructor
    · intro i other hi
      cases i with
      | zero =>
        obtain rfl := Option.some.inj hi
        exact hfirst
      | succ i =>
        rw [Nat.add_comm i 1, ← Nat.add_assoc]
        exact hrest i other hi
    · intro p
      rw [hget, List.length_cons, Finset.sum_range_succ', PerPosition.get_zipWith]
      simp only [List.getElem?_cons_succ, List.getElem?_cons_zero, Option.getD_some]
      omega

end Chains

/-! ## All chains of a position -/

section Totals

variable {s : Statements} {p : Position}

/-- A chain that has passed is the one that is walked along. -/
lemma Approved.eq_chain {handle : Nat} {l : List Nat}
    (h : Approved s.records handle p (s.chainAt handle p) l) : l = s.chain handle p := by
  have hlength := length_le_of_lt h.linked.nodup h.lt_size
  rw [chain, follow_eq h.linked hlength]

/-- All chains have passed, and their counts are added. -/
lemma auditChains_eq_ok {listed : PerPosition Nat} (h : s.auditChains = .ok listed) :
    (∀ handle p, Approved s.records handle p (s.chainAt handle p) (s.chain handle p)) ∧
      ∀ p, listed.get p = ∑ handle ∈ Finset.range s.chains.size, (s.chainAt handle p).count := by
  rw [auditChains_eq_auditRest] at h
  cases hrest : auditRest s.records s.chains.toList (PerPosition.all 0) 0 with
  | error fault =>
    rw [hrest] at h
    cases h
  | ok result =>
    rw [hrest] at h
    obtain rfl := Except.ok.inj h
    obtain ⟨hpassed, hget⟩ := auditRest_eq_ok hrest
    constructor
    · intro handle p
      have hexists : ∃ l, Approved s.records handle p (s.chainAt handle p) l := by
        cases hchain : s.chains[handle]? with
        | none =>
          rw [chainAt, hchain]
          refine ⟨[], ⟨?_, List.forall_mem_nil _, List.forall_mem_nil _⟩, ?_⟩
          · cases p <;> exact .nil
          · cases p <;> rfl
        | some chains =>
          rw [chainAt, hchain, Option.getD_some]
          rw [← Array.getElem?_toList] at hchain
          have hown := hpassed handle chains hchain p
          rwa [Nat.zero_add] at hown
      obtain ⟨l, hl⟩ := hexists
      exact hl.eq_chain ▸ hl
    · intro p
      rw [hget, PerPosition.get_all, Nat.zero_add, Array.length_toList]
      simp only [Array.getElem?_toList]
      rfl

/-- **Chains that hold as many live records as there are hold all of them.** -/
theorem exists_mem_of_sum
    (h : ∀ handle, Approved s.records handle p (s.chainAt handle p) (s.chain handle p))
    (hsum : ∑ handle ∈ Finset.range s.chains.size, (s.chainAt handle p).count =
      (liveSet s.records).card) {id : Nat} (hid : isLiveAt s.records id = true) :
    ∃ handle < s.chains.size, id ∈ s.chain handle p := by
  have hmem : ∀ {handle other}, other ∈ ((s.chain handle p).filter (isLiveAt s.records)).toFinset ↔
      other ∈ s.chain handle p ∧ isLiveAt s.records other = true := by
    intro handle other
    rw [List.mem_toFinset, List.mem_filter]
  have hcard : ∀ handle, (s.chainAt handle p).count =
      ((s.chain handle p).filter (isLiveAt s.records)).toFinset.card := fun handle => by
    rw [(h handle).count_eq, List.toFinset_card_of_nodup ((h handle).linked.nodup.filter _)]
  -- a live record uses one handle only, so no other chain has it
  have hapart : (Finset.range s.chains.size : Set Nat).PairwiseDisjoint fun handle =>
      ((s.chain handle p).filter (isLiveAt s.records)).toFinset := by
    intro handle _ other _ hne
    refine Finset.disjoint_left.2 fun id hid hother => hne ?_
    obtain ⟨terms, hterms⟩ := isLiveAt_iff.1 (hmem.1 hid).2
    rw [← (h handle).uses id (hmem.1 hid).1 terms hterms,
      (h other).uses id (hmem.1 hother).1 terms hterms]
  have hall : (Finset.range s.chains.size).biUnion (fun handle =>
      ((s.chain handle p).filter (isLiveAt s.records)).toFinset) = liveSet s.records := by
    refine Finset.eq_of_subset_of_card_le ?_ ?_
    · intro id hid
      obtain ⟨handle, -, hid⟩ := Finset.mem_biUnion.1 hid
      exact mem_liveSet.2 (hmem.1 hid).2
    · rw [← hsum, Finset.card_biUnion hapart, Finset.sum_congr rfl fun handle _ => hcard handle]
  have hlive := mem_liveSet.2 hid
  rw [← hall] at hlive
  obtain ⟨handle, hhandle, hid⟩ := Finset.mem_biUnion.1 hlive
  exact ⟨handle, Finset.mem_range.1 hhandle, (hmem.1 hid).1⟩

end Totals

/-! ## The index -/

section Index

variable [Text.Hasher] {s : Statements}

/-- The index finds the live records in `rest`, and they are counted. -/
lemma indexRest_eq_ok {rest : List Statement} {indexed id : Nat} {result : Nat × Nat}
    (h : s.indexRest rest indexed id = .ok result) :
    (∀ i record, rest[i]? = some record → ∀ terms, record.terms = some terms →
      s.find? terms = some (id + i)) ∧ result.1 = indexed + rest.countP Statement.isLive := by
  induction rest generalizing indexed id with
  | nil =>
    obtain rfl := Except.ok.inj h
    exact ⟨fun i _ hnone => (by cases hnone), rfl⟩
  | cons record rest ih =>
    rw [indexRest, List.foldlM_cons] at h
    obtain ⟨next, hnext, h⟩ := exists_of_bind_eq_ok h
    have hfirst : (∀ terms, record.terms = some terms → s.find? terms = some id) ∧
        next = (indexed + (if record.isLive then 1 else 0), id + 1) := by
      rw [Statement.isLive]
      cases hterms : record.terms with
      | none =>
        simp only [hterms] at hnext
        exact ⟨fun _ hnone => (by cases hnone), (Except.ok.inj hnext).symm⟩
      | some terms =>
        simp only [hterms] at hnext
        split at hnext
        next hfound =>
          refine ⟨?_, (Except.ok.inj hnext).symm⟩
          rintro _ ⟨⟩
          exact hfound
        next => cases hnext
    obtain ⟨hfound, rfl⟩ := hfirst
    obtain ⟨hrest, hcount⟩ := ih h
    constructor
    · intro i other hi
      cases i with
      | zero =>
        obtain rfl := Option.some.inj hi
        exact hfound
      | succ i =>
        rw [Nat.add_comm i 1, ← Nat.add_assoc]
        exact hrest i other hi
    · rw [hcount, List.countP_cons]
      omega

lemma auditIndex_eq_ok {indexed : Nat} (h : s.auditIndex = .ok indexed) :
    (∀ id terms, s.terms? id = some terms → s.find? terms = some id) ∧
      indexed = (liveSet s.records).card := by
  rw [auditIndex_eq_indexRest] at h
  cases hrest : s.indexRest s.records.toList 0 0 with
  | error fault =>
    rw [hrest] at h
    cases h
  | ok result =>
    rw [hrest] at h
    obtain rfl := Except.ok.inj h
    obtain ⟨hfound, hcount⟩ := indexRest_eq_ok hrest
    rw [Nat.zero_add, ← card_liveSet] at hcount
    refine ⟨?_, hcount⟩
    intro id terms hterms
    obtain ⟨record, hrecord, hterms⟩ := Option.bind_eq_some_iff.1 hterms
    rw [← Array.getElem?_toList] at hrecord
    rw [hfound id record hrecord terms hterms, Nat.zero_add]

/-! ## Statements in order -/

/-- The number of live records with a handle in a position. -/
def usesOf (s : Statements) (handle : Nat) (p : Position) : Nat :=
  (List.range s.records.size).countP fun id => (s.terms? id).any fun terms => terms.get p = handle

/-- What an audit vouches for. -/
structure Audited (s : Statements) : Prop where
  /-- Following the links of a chain ends, -/
  linked : ∀ handle p, Linked (nextOf s.records p) (s.chainAt handle p).head (s.chain handle p)
  /-- and meets no record twice. -/
  nodup : ∀ handle p, (s.chain handle p).Nodup
  /-- A live record uses handles that are there, -/
  lt_chains : ∀ id terms, s.terms? id = some terms → ∀ p, terms.get p < s.chains.size
  /-- and is in the chain of its handle in a position once, and in no other chain. -/
  count_chain : ∀ id terms, s.terms? id = some terms → ∀ handle p,
    (s.chain handle p).count id = if terms.get p = handle then 1 else 0
  /-- The four handles of a live record are found under its number, -/
  find?_eq : ∀ id terms, s.terms? id = some terms → s.find? terms = some id
  /-- so no two live records have the same. -/
  distinct : ∀ id other terms, s.terms? id = some terms → s.terms? other = some terms → id = other
  count_eq : ∀ handle p, (s.chainAt handle p).count = s.usesOf handle p
  live_eq : s.live = (List.range s.records.size).countP (isLiveAt s.records)

omit [Text.Hasher] in
lemma card_liveSet_eq_countP (records : Array Statement) :
    (liveSet records).card = (List.range records.size).countP (isLiveAt records) := by
  rw [List.countP_eq_length_filter, ← List.toFinset_card_of_nodup (List.nodup_range.filter _)]
  congr 1
  ext id
  rw [liveSet, Finset.mem_filter, Finset.mem_range, List.mem_toFinset, List.mem_filter,
    List.mem_range]

omit [Text.Hasher] in
/-- Live records are counted where their chain is. -/
lemma Approved.count_eq_usesOf {handle : Nat} {p : Position}
    (h : Approved s.records handle p (s.chainAt handle p) (s.chain handle p))
    (hmem : ∀ id terms, s.terms? id = some terms → terms.get p = handle → id ∈ s.chain handle p) :
    (s.chainAt handle p).count = s.usesOf handle p := by
  rw [h.count_eq, usesOf, List.countP_eq_length_filter]
  refine List.Perm.length_eq ((List.perm_ext_iff_of_nodup (h.linked.nodup.filter _)
    (List.nodup_range.filter _)).2 ?_)
  intro id
  simp only [List.mem_filter, List.mem_range, Option.any_eq_true, decide_eq_true_eq]
  constructor
  · rintro ⟨hid, hlive⟩
    obtain ⟨terms, hterms⟩ := isLiveAt_iff.1 hlive
    exact ⟨h.lt_size id hid, terms, hterms, h.uses id hid terms hterms⟩
  · rintro ⟨-, terms, hterms, huses⟩
    exact ⟨hmem id terms hterms huses, isLiveAt_of_terms? hterms⟩

/-- **Statements without a fault are in order.** -/
theorem audited_of_audit (h : s.audit = .ok ()) : s.Audited := by
  obtain ⟨listed, hchains, h⟩ := exists_of_bind_eq_ok h
  obtain ⟨happroved, hlisted⟩ := auditChains_eq_ok hchains
  split at h
  next => cases h
  next hnone =>
    obtain ⟨indexed, hindex, h⟩ := exists_of_bind_eq_ok h
    obtain ⟨hfound, rfl⟩ := auditIndex_eq_ok hindex
    split at h
    next hlive =>
      have hsum : ∀ p, ∑ handle ∈ Finset.range s.chains.size, (s.chainAt handle p).count =
          (liveSet s.records).card := by
        intro p
        rw [← hlisted, hlive]
        by_contra hne
        exact hnone (List.any_eq_true.2 ⟨_, PerPosition.mem_toList.2 rfl, decide_eq_true hne⟩)
      have hown : ∀ id terms, s.terms? id = some terms → ∀ p,
          terms.get p < s.chains.size ∧ id ∈ s.chain (terms.get p) p := by
        intro id terms hterms p
        obtain ⟨handle, hlt, hid⟩ := exists_mem_of_sum (fun handle => happroved handle p) (hsum p)
          (isLiveAt_of_terms? hterms)
        obtain rfl := (happroved handle p).uses id hid terms hterms
        exact ⟨hlt, hid⟩
      have hmem : ∀ {handle p id terms}, s.terms? id = some terms →
          (id ∈ s.chain handle p ↔ terms.get p = handle) := by
        intro handle p id terms hterms
        refine ⟨fun hid => (happroved handle p).uses id hid terms hterms, ?_⟩
        rintro rfl
        exact (hown id terms hterms p).2
      exact
        { linked := fun handle p => (happroved handle p).linked
          nodup := fun handle p => (happroved handle p).linked.nodup
          lt_chains := fun id terms hterms p => (hown id terms hterms p).1
          count_chain := fun id terms hterms handle p => by
            rw [(happroved handle p).linked.nodup.count]
            exact if_congr (hmem hterms) rfl rfl
          find?_eq := hfound
          distinct := fun id other terms hterms hother =>
            Option.some.inj ((hfound id terms hterms).symm.trans (hfound other terms hother))
          count_eq := fun handle p => (happroved handle p).count_eq_usesOf fun _ _ hterms =>
            (hmem hterms).2
          live_eq := hlive.symm.trans (card_liveSet_eq_countP s.records) }
    next => cases h

/-- **An audit can be trusted, whatever it is given.**  The links, counts and handles of the
statements may be anything, and so may the entries of the index as long as they name records.  If
some slot of the index is empty, then the audit looks at nothing that is not there, all its loops
end, and statements in which it finds no fault are in order. -/
theorem audit_sound (s : Statements) (h : s.Searchable) :
    s.checkedAudit = .ok s.audit ∧ SearchesEnd s.index ∧
    (∀ handle p, ∃ rounds ≤ s.records.size + 1,
      Walks s.records handle p 0 0 (s.chainAt handle p).head rounds
        (auditFrom s.records handle p s.records.size (s.chainAt handle p).head 0)) ∧
    (s.audit = .ok () → s.Audited) :=
  ⟨h.checkedAudit_eq, h.slots.searchesEnd,
    fun _ _ => exists_walks (Nat.zero_add s.records.size) 0 _, audited_of_audit⟩

end Index

/-- A tombstone that nobody waits for leads to a live record.  If it leads to itself instead, the
audit still ends. -/
theorem audit_sound_stray :
    let s : Statements :=
      { records := #[⟨some (.all 0), .all none⟩, ⟨none, .all (some 0)⟩]
        chains := #[.all ⟨some 1, 1⟩]
        index := #[.empty, .entry 0]
        used := 0
        live := 1
        free := #[]
        zombies := #[] }
    let looped : Statements :=
      { s with records := #[⟨some (.all 0), .all none⟩, ⟨none, .all (some 1)⟩] }
    s.Audited ∧ s.chain 0 .subject = [1, 0] ∧ looped.checkedAudit = .ok (.error .cycle) := by
  intro s looped
  have hsearchable : s.Searchable := by
    refine ⟨⟨⟨1, rfl⟩, by simp [s]⟩, ?_⟩
    intro id hmem
    obtain rfl : id = 0 := by simpa [s] using hmem
    decide
  refine ⟨(audit_sound s hsearchable).2.2.2 (by decide +kernel), by decide +kernel,
    by decide +kernel⟩

end QuadBase.Store.Statements
