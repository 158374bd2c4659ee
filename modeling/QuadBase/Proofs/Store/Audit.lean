import Mathlib.Algebra.BigOperators.Group.Finset.Basic
import QuadBase.Proofs.Store.Insertion
import QuadBase.Store.Audit

/-!
# The audit finds no fault

The audit checks part of the invariant by going through all chains and all records.  Where the
invariant holds, each of its checks passes (`Sound.audit_eq`).

* `auditFrom_eq` — following one chain counts its live members.
* `sum_counts` — the counts of the chains of a position add up to the number of live records,
  because each of these is in the chain of one handle.
* `auditIndex_eq` — the index finds every live record under its own number.
-/

namespace QuadBase.Store.Statements

open QuadBase.Rdf

/-! ## Chains -/

section Chains

variable {records : Array Statement} {handle : Nat} {p : Position}

/-- Following a chain counts its live members. -/
lemma auditFrom_eq {l : List Nat} {current : Option Nat}
    (hl : Linked (nextOf records p) current l) {steps : Nat} (live : Nat)
    (hsteps : l.length ≤ steps) (hlt : ∀ id ∈ l, id < records.size)
    (huses : ∀ id ∈ l, ∀ terms, termsAt records id = some terms → terms.get p = handle) :
    auditFrom records handle p steps current live =
      .ok (live + (l.filter (isLiveAt records)).length) := by
  induction hl generalizing steps live with
  | nil => rw [auditFrom, List.filter_nil, List.length_nil, Nat.add_zero]
  | @cons id l rest ih =>
    cases steps with
    | zero => cases hsteps
    | succ steps =>
      have hid := hlt id List.mem_cons_self
      have hget : records[id]? = some records[id] := Array.getElem?_eq_getElem hid
      have hnext := nextOf_of_getElem? (p := p) hget
      have hterms := termsAt_of_getElem? hget
      have hlive : isLiveAt records id = records[id].terms.isSome := by rw [isLiveAt_eq, hterms]
      have hrest := fun live => ih live (Nat.le_of_succ_le_succ hsteps)
        (fun other hother => hlt other (List.mem_cons_of_mem id hother))
        (fun other hother => huses other (List.mem_cons_of_mem id hother))
      rw [hnext] at hrest
      rw [auditFrom, hget]
      cases hcase : records[id].terms with
      | none =>
        rw [hcase] at hlive
        simp only [hcase]
        rw [List.filter_cons_of_neg (by simp [hlive])]
        exact hrest live
      | some terms =>
        rw [hcase] at hlive
        simp only [hcase]
        rw [if_pos (huses id List.mem_cons_self terms (hterms.trans hcase)),
          List.filter_cons_of_pos (by simp [hlive]), List.length_cons, hrest]
        congr 1
        omega

/-- The four chains of a handle, when each of them passes. -/
lemma auditHandle_eq {chains : PerPosition Chain}
    (h : ∀ p, auditChain records handle p (chains.get p) = .ok (chains.get p).count)
    (listed : PerPosition Nat) : auditHandle records handle chains listed =
      .ok (listed.zipWith (fun n c => n + c.count) chains) := by
  rw [auditHandle]
  simp only [List.foldlM_cons, List.foldlM_nil, h]
  rfl

/-- The audit of the chains in `rest`, the first of which belong to `handle`. -/
def auditRest (records : Array Statement) (rest : List (PerPosition Chain))
    (listed : PerPosition Nat) (handle : Nat) : Except Fault (PerPosition Nat × Nat) :=
  rest.foldlM (fun (listed, handle) chains => do
    let listed ← auditHandle records handle chains listed
    return (listed, handle + 1)) (listed, handle)

/-- All chains, when each of them passes. -/
lemma auditRest_eq {rest : List (PerPosition Chain)} (listed : PerPosition Nat)
    (h : ∀ i chains, rest[i]? = some chains → ∀ p,
      auditChain records (handle + i) p (chains.get p) = .ok (chains.get p).count) :
    ∃ listed' : PerPosition Nat,
      auditRest records rest listed handle = .ok (listed', handle + rest.length) ∧
      ∀ p, listed'.get p = listed.get p +
        ∑ i ∈ Finset.range rest.length, ((rest[i]?.getD noChains).get p).count := by
  induction rest generalizing listed handle with
  | nil => exact ⟨listed, rfl, fun p => by simp⟩
  | cons chains rest ih =>
    have hfirst : auditHandle records handle chains listed = _ :=
      auditHandle_eq (h 0 chains rfl) listed
    have hstep : auditRest records (chains :: rest) listed handle =
        auditRest records rest (listed.zipWith (fun n c => n + c.count) chains) (handle + 1) := by
      rw [auditRest, List.foldlM_cons]
      simp only [hfirst]
      rfl
    obtain ⟨listed', hrest, hget⟩ := @ih (handle + 1)
      (listed.zipWith (fun n c => n + c.count) chains) fun i other hi p => by
        rw [Nat.add_assoc, Nat.add_comm 1 i]
        exact h (i + 1) other hi p
    refine ⟨listed', ?_, ?_⟩
    · rw [hstep, hrest, List.length_cons, Nat.add_comm rest.length 1, ← Nat.add_assoc]
    · intro p
      rw [hget, List.length_cons, Finset.sum_range_succ', PerPosition.get_zipWith]
      simp only [List.getElem?_cons_succ, List.getElem?_cons_zero, Option.getD_some]
      omega

end Chains

/-! ## Totals -/

variable [Text.Hasher] {s : Statements}

/-- Each live record is in one chain of a position, so the counts add up. -/
lemma Sound.sum_counts (h : s.Sound) (p : Position) :
    ∑ handle ∈ Finset.range s.chains.size, (s.chainAt handle p).count = s.live := by
  have hfiber : ∀ handle, (s.chainAt handle p).count =
      ((liveSet s.records).filter fun id =>
        ((s.terms? id).map (·.get p)).getD 0 = handle).card := by
    intro handle
    have hl := h.isChain handle p
    rw [hl.count_eq, ← List.toFinset_card_of_nodup (hl.linked.nodup.filter _)]
    congr 1
    ext id
    rw [List.mem_toFinset, List.mem_filter, Finset.mem_filter, mem_liveSet, and_comm]
    refine and_congr_right ?_
    intro hlive
    obtain ⟨terms, hterms⟩ := isLiveAt_iff.1 hlive
    rw [hl.live_mem_iff hterms, hterms]
    rfl
  rw [h.live_eq, Finset.sum_congr rfl fun handle _ => hfiber handle]
  refine (Finset.card_eq_sum_card_fiberwise fun id hid => ?_).symm
  obtain ⟨terms, hterms⟩ := isLiveAt_iff.1 (mem_liveSet.1 hid)
  rw [hterms]
  exact Finset.mem_coe.2 (Finset.mem_range.2 (h.lt_handles hterms p))

lemma Sound.auditChain_eq (h : s.Sound) (handle : Nat) (p : Position) :
    auditChain s.records handle p (s.chainAt handle p) = .ok (s.chainAt handle p).count := by
  have hl := h.isChain handle p
  have hfrom := auditFrom_eq hl.linked 0 (h.length_le hl) (fun _ => h.lt_size hl)
    fun id hmem terms hterms => (hl.live_mem_iff hterms).1 hmem
  rw [auditChain, hfrom, Nat.zero_add, hl.count_eq]
  exact if_pos rfl

omit [Text.Hasher] in
lemma auditChains_eq_auditRest {s : Statements} :
    s.auditChains = Prod.fst <$> auditRest s.records s.chains.toList (PerPosition.all 0) 0 := by
  rw [auditChains, ← Array.foldlM_toList]
  rfl

/-- The chains of each position hold as many live records as there are. -/
lemma Sound.auditChains_eq (h : s.Sound) : s.auditChains = .ok (PerPosition.all s.live) := by
  obtain ⟨listed, hrest, hget⟩ : ∃ listed : PerPosition Nat, _ ∧ _ :=
    auditRest_eq (PerPosition.all 0) fun i chains hi p => by
      rw [Array.getElem?_toList] at hi
      have hchain := h.auditChain_eq (0 + i) p
      rwa [chainAt, Nat.zero_add, hi, Option.getD_some, ← Nat.zero_add i] at hchain
  rw [auditChains_eq_auditRest, hrest]
  have heq : listed = PerPosition.all s.live := PerPosition.ext_get fun p => by
    rw [hget, PerPosition.get_all, PerPosition.get_all, Nat.zero_add, ← h.sum_counts p,
      Array.length_toList]
    simp only [Array.getElem?_toList]
    rfl
  rw [heq]
  rfl

/-! ## The index -/

/-- The audit of the index for the records in `rest`, the first of which is `id`. -/
def indexRest (s : Statements) (rest : List Statement) (indexed id : Nat) :
    Except Fault (Nat × Nat) :=
  rest.foldlM (fun (indexed, id) record =>
    match record.terms with
    | none => .ok (indexed, id + 1)
    | some terms =>
      if s.find? terms = some id then .ok (indexed + 1, id + 1) else .error .notIndexed)
    (indexed, id)

lemma indexRest_eq {rest : List Statement} (indexed : Nat) {id : Nat}
    (h : ∀ i record, rest[i]? = some record → ∀ terms, record.terms = some terms →
      s.find? terms = some (id + i)) :
    s.indexRest rest indexed id =
      .ok (indexed + rest.countP Statement.isLive, id + rest.length) := by
  induction rest generalizing indexed id with
  | nil => rfl
  | cons record rest ih =>
    have hrest := fun indexed => @ih indexed (id + 1) fun i other hi terms hterms => by
      rw [Nat.add_assoc, Nat.add_comm 1 i]
      exact h (i + 1) other hi terms hterms
    have hstep : s.indexRest (record :: rest) indexed id =
        s.indexRest rest (indexed + if record.isLive then 1 else 0) (id + 1) := by
      rw [indexRest, List.foldlM_cons, Statement.isLive]
      cases hterms : record.terms with
      | none => rfl
      | some terms =>
        dsimp only
        rw [if_pos (show s.find? terms = some id from h 0 record rfl terms hterms)]
        rfl
    rw [hstep, hrest, List.countP_cons, List.length_cons]
    congr 2
    · omega
    · omega

lemma auditIndex_eq_indexRest : s.auditIndex = Prod.fst <$> s.indexRest s.records.toList 0 0 := by
  rw [auditIndex, ← Array.foldlM_toList]
  rfl

/-- The index finds every live record. -/
lemma Sound.auditIndex_eq (h : s.Sound) : s.auditIndex = .ok s.live := by
  have hrest : s.indexRest s.records.toList 0 0 = _ :=
    indexRest_eq 0 fun id record hrecord terms hterms => by
      rw [Array.getElem?_toList] at hrecord
      rw [Nat.zero_add, h.find?_eq_some_iff, terms?, hrecord, Option.bind_some, hterms]
  rw [auditIndex_eq_indexRest, hrest, h.live_eq, card_liveSet, Nat.zero_add]
  rfl

/-- **The audit finds no fault.** -/
theorem Sound.audit_eq (h : s.Sound) : s.audit = .ok () := by
  rw [audit, h.auditChains_eq, h.auditIndex_eq]
  refine (if_neg ?_).trans (if_pos rfl)
  simp [PerPosition.toList, PerPosition.all]

end QuadBase.Store.Statements
