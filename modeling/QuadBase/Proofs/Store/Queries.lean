import Mathlib.Data.List.Nodup
import QuadBase.Proofs.Store.Contents
import QuadBase.Store.Query

/-!
# What a pattern selects

The records of a pattern come from its legs, and those of a leg from a chain or a scan.  This file
follows the way back, from handles to terms.

**Legs.**  `Agrees leg handles` says that the handles are the ones the leg binds.  The records of a
leg are exactly the live ones that agree with it, each once, whichever chain was chosen
(`mem_matching`, `nodup_matching`), since every chain that the leg offers meets all of them
(`Offers.visited`).

**Resolution.**  The handles of a quad agree with some leg of a pattern if and only if the pattern
admits the quad (`agrees_resolve_iff`), and with no two legs (`apart_resolve`).

**Quads.**  So the quads of a pattern are the quads of the store that it admits, each once
(`Sound.mem_quads`, `Sound.nodup_quads`), and they are counted right (`Sound.count_eq`).
-/

namespace QuadBase.Store

open QuadBase.Rdf

/-! ## Legs -/

namespace Leg

/-- The handles are the ones that the leg binds. -/
def Agrees (leg : Leg) (handles : PerPosition Nat) : Prop :=
  ∀ p handle, leg.get p = some handle → handles.get p = handle

variable {leg : Leg} {s : Statements} {id : Nat}

lemma agrees_iff {handles : PerPosition Nat} : leg.Agrees handles ↔
    (∀ b, leg.subject = some b → handles.subject = b) ∧
    (∀ b, leg.predicate = some b → handles.predicate = b) ∧
    (∀ b, leg.object = some b → handles.object = b) ∧
    (∀ b, leg.graph = some b → handles.graph = b) := by
  constructor
  · intro h
    exact ⟨h .subject, h .predicate, h .object, h .graph⟩
  · rintro ⟨hs, hp, ho, hg⟩ p
    cases p with
    | subject => exact hs
    | predicate => exact hp
    | object => exact ho
    | graph => exact hg

lemma all_toList {v : PerPosition Bool} : v.toList.all (·.2) = true ↔ ∀ p, v.get p = true := by
  rw [List.all_eq_true]
  constructor
  · intro h p
    exact h (p, v.get p) (PerPosition.mem_toList.2 rfl)
  · rintro h ⟨p, b⟩ hmem
    exact PerPosition.mem_toList.1 hmem ▸ h p

lemma admits_iff {record : Statement} :
    leg.admits record = true ↔ ∃ handles, record.terms = some handles ∧ leg.Agrees handles := by
  rw [admits]
  cases record.terms with
  | none => simp
  | some handles =>
    rw [all_toList]
    simp only [PerPosition.get_zipWith, Option.some.injEq, exists_eq_left', Agrees]
    refine forall_congr' ?_
    intro p
    cases leg.get p with
    | none => simp
    | some bound =>
      simp only [Option.all_some, beq_iff_eq, Option.some.injEq, forall_eq']
      exact eq_comm

lemma admitsAt_of_getElem? {records : Array Statement} {record : Statement}
    (h : records[id]? = some record) : leg.admitsAt records id = leg.admits record := by
  rw [admitsAt, h, Option.any_some]

lemma admitsAt_iff : leg.admitsAt s.records id = true ↔
    ∃ handles, s.terms? id = some handles ∧ leg.Agrees handles := by
  rw [admitsAt, Option.any_eq_true, Statements.terms?]
  constructor
  · rintro ⟨record, hrecord, hadmits⟩
    obtain ⟨handles, hhandles, hagrees⟩ := admits_iff.1 hadmits
    exact ⟨handles, by rw [hrecord, Option.bind_some, hhandles], hagrees⟩
  · rintro ⟨handles, hhandles, hagrees⟩
    obtain ⟨record, hrecord, hterms⟩ := Option.bind_eq_some_iff.1 hhandles
    exact ⟨record, hrecord, admits_iff.2 ⟨handles, hterms, hagrees⟩⟩

/-! ## The way to the records -/

lemma cheapest_mem {entries : List (Position × Chain)} {entry : Position × Chain}
    (h : cheapest entries = some entry) : entry ∈ entries := by
  induction entries with
  | nil => cases h
  | cons first rest ih =>
    rw [cheapest] at h
    split at h
    next => exact Option.some.inj h ▸ List.mem_cons_self
    next other hother =>
      split at h
      next => exact List.mem_cons_of_mem _ (ih (Option.some.inj h ▸ hother))
      next => exact Option.some.inj h ▸ List.mem_cons_self

/-- A leg is answered by a scan, or from the chain of one of its handles. -/
lemma access_cases (leg : Leg) (s : Statements) :
    leg.access s = .scan ∨ ∃ p handle, leg.get p = some handle ∧
      leg.access s = .chain p (s.chainAt handle p).head := by
  rw [access]
  cases hcheapest : cheapest (leg.boundChains s) with
  | none => exact Or.inl rfl
  | some entry =>
    obtain ⟨⟨p, bound⟩, hmem, hentry⟩ := List.mem_filterMap.1 (cheapest_mem hcheapest)
    obtain ⟨handle, rfl, rfl⟩ := Option.map_eq_some_iff.1 hentry
    exact Or.inr ⟨p, handle, PerPosition.mem_toList.1 hmem, rfl⟩

/-- The ways to the records of a leg: a scan, or the chain of any handle that it binds. -/
inductive Offers (leg : Leg) (s : Statements) : Access → Prop where
  | scan : Offers leg s .scan
  | chain {p : Position} {handle : Nat} (bound : leg.get p = some handle) :
      Offers leg s (.chain p (s.chainAt handle p).head)

lemma offers_access (leg : Leg) (s : Statements) : leg.Offers s (leg.access s) := by
  rcases leg.access_cases s with hscan | ⟨p, handle, hbound, hchain⟩
  · rw [hscan]
    exact .scan
  · rw [hchain]
    exact .chain hbound

variable [Text.Hasher] {access : Access}

/-- **Each way to the records of a leg meets all of them**, and none twice. -/
theorem Offers.visited (hoffers : leg.Offers s access) (h : s.Sound) :
    (visited s access).Nodup ∧
      ∀ id, leg.admitsAt s.records id = true → id ∈ visited s access := by
  cases hoffers with
  | scan =>
    rw [Leg.visited]
    refine ⟨List.nodup_range, ?_⟩
    intro id hid
    obtain ⟨handles, hhandles, -⟩ := admitsAt_iff.1 hid
    exact List.mem_range.2 (Statements.lt_size_of_isLiveAt (Statements.isLiveAt_of_terms? hhandles))
  | @chain p handle hbound =>
    have hl := h.isChain handle p
    rw [Leg.visited]
    refine ⟨hl.linked.nodup, ?_⟩
    intro id hid
    obtain ⟨handles, hhandles, hagrees⟩ := admitsAt_iff.1 hid
    exact (hl.live_mem_iff hhandles).2 (hagrees p handle hbound)

/-- **The records of a leg are those that agree with it**, whichever way was chosen. -/
theorem mem_matching (h : s.Sound) :
    id ∈ leg.matching s ↔ ∃ handles, s.terms? id = some handles ∧ leg.Agrees handles := by
  rw [matching, List.mem_filter, ← admitsAt_iff]
  exact and_iff_right_of_imp (((leg.offers_access s).visited h).2 id)

lemma nodup_matching (h : s.Sound) (leg : Leg) : (leg.matching s).Nodup :=
  ((leg.offers_access s).visited h).1.filter _

end Leg

/-! ## Resolution -/

variable [Text.Hasher] {t : TermTable} {pattern : Pattern} {leg : Leg}

/-- A component that asks for a term binds the handle of this term. -/
lemma bindHandle_iff (h : t.Sound) {handle : Nat} {term : Term} (hterm : t.term? handle = some term)
    (asked : Option Term) :
    (∃ bound, bindHandle t asked = some bound ∧ ∀ b, bound = some b → handle = b) ↔
      asked.all (· == term) = true := by
  cases asked with
  | none => simp [bindHandle]
  | some other =>
    simp only [bindHandle, Option.map_eq_some_iff, Option.all_some, beq_iff_eq,
      h.handle?_eq_some_iff]
    constructor
    · rintro ⟨_, ⟨b, hb, rfl⟩, heq⟩
      obtain rfl := heq b rfl
      exact Option.some.inj (hb.symm.trans hterm)
    · rintro rfl
      exact ⟨some handle, ⟨handle, hterm, rfl⟩, fun b hb => Option.some.inj hb⟩

/-- The legs of a pattern: one for any graph, or one for each graph that is known. -/
lemma mem_resolve : leg ∈ Leg.resolve pattern t ↔
    bindHandle t (pattern.subject.map .resource) = some leg.subject ∧
    bindHandle t (pattern.predicate.map Term.iri) = some leg.predicate ∧
    bindHandle t pattern.object = some leg.object ∧
    (if pattern.graphs.isEmpty then leg.graph = none
      else ∃ graph ∈ pattern.graphs, ∃ handle, t.graphHandle? graph = some handle ∧
        leg.graph = some handle) := by
  rw [Leg.resolve]
  cases hs : bindHandle t (pattern.subject.map .resource) with
  | none => simp
  | some subject =>
    cases hp : bindHandle t (pattern.predicate.map Term.iri) with
    | none => simp
    | some predicate =>
      cases ho : bindHandle t pattern.object with
      | none => simp
      | some object =>
        obtain ⟨ls, lp, lo, lg⟩ := leg
        simp only [Option.bind_eq_bind, Option.bind_some]
        split
        next => simp [eq_comm]
        next =>
          simp only [Option.getD_some, List.mem_map, List.mem_eraseDups, List.mem_filterMap,
            PerPosition.mk.injEq, Option.some.injEq]
          constructor
          · rintro ⟨handle, ⟨graph, hgraph, hhandle⟩, rfl, rfl, rfl, rfl⟩
            exact ⟨rfl, rfl, rfl, graph, hgraph, handle, hhandle, rfl⟩
          · rintro ⟨rfl, rfl, rfl, graph, hgraph, handle, hhandle, rfl⟩
            exact ⟨handle, ⟨graph, hgraph, hhandle⟩, rfl, rfl, rfl, rfl⟩

/-- The graphs that a pattern allows, by handle. -/
lemma exists_graphHandle?_iff (h : t.Sound) {handle : Nat} {graph : GraphName}
    (hgraph : t.graphName? handle = some graph) {graphs : List GraphName} :
    (∃ allowed ∈ graphs, t.graphHandle? allowed = some handle) ↔ graphs.contains graph = true := by
  rw [List.contains_iff_mem]
  constructor
  · rintro ⟨allowed, hmem, hhandle⟩
    rw [h.graphHandle?_eq_some_iff, hgraph, Option.some.injEq] at hhandle
    exact hhandle ▸ hmem
  · intro hmem
    exact ⟨graph, hmem, h.graphHandle?_eq_some_iff.2 hgraph⟩

omit [Text.Hasher] in
/-- A pattern admits a quad component by component. -/
lemma admits_iff_components {q : Quad} : pattern.admits q = true ↔
    (pattern.subject.map Term.resource).all (· == .resource q.subject) = true ∧
    (pattern.predicate.map Term.iri).all (· == .iri q.predicate) = true ∧
    pattern.object.all (· == q.object) = true ∧
    (pattern.graphs.isEmpty = true ∨ pattern.graphs.contains q.graph = true) := by
  rw [Pattern.admits]
  cases pattern.subject <;> cases pattern.predicate <;> cases pattern.object <;>
    simp [and_assoc]

/-- **The handles of a quad agree with some leg of a pattern if the pattern admits the quad**, and
with none otherwise. -/
theorem agrees_resolve_iff (h : t.Sound) {handles : PerPosition Nat} {q : Quad}
    (hq : QuadStore.quadOf? t handles = some q) :
    (∃ leg ∈ Leg.resolve pattern t, leg.Agrees handles) ↔ pattern.admits q = true := by
  obtain ⟨hs, hp, ho, hg⟩ := QuadStore.quadOf?_eq_some_iff.1 hq
  rw [admits_iff_components, ← bindHandle_iff h hs, ← bindHandle_iff h hp, ← bindHandle_iff h ho,
    ← exists_graphHandle?_iff h hg]
  constructor
  · rintro ⟨leg, hleg, hagrees⟩
    obtain ⟨hbs, hbp, hbo, hbg⟩ := mem_resolve.1 hleg
    obtain ⟨has, hap, hao, hag⟩ := Leg.agrees_iff.1 hagrees
    refine ⟨⟨_, hbs, has⟩, ⟨_, hbp, hap⟩, ⟨_, hbo, hao⟩, ?_⟩
    split at hbg
    next hempty => exact Or.inl hempty
    next =>
      obtain ⟨graph, hmem, handle, hhandle, hbound⟩ := hbg
      obtain rfl := hag handle hbound
      exact Or.inr ⟨graph, hmem, hhandle⟩
  · rintro ⟨⟨bs, hbs, has⟩, ⟨bp, hbp, hap⟩, ⟨bo, hbo, hao⟩, hallowed⟩
    -- the graph is bound exactly if the pattern lists graphs
    by_cases hempty : pattern.graphs.isEmpty = true
    · refine ⟨⟨bs, bp, bo, none⟩, mem_resolve.2 ⟨hbs, hbp, hbo, ?_⟩, ?_⟩
      · rw [if_pos hempty]
      · exact Leg.agrees_iff.2 ⟨has, hap, hao, by simp⟩
    · obtain ⟨graph, hmem, hhandle⟩ := hallowed.resolve_left hempty
      refine ⟨⟨bs, bp, bo, some handles.graph⟩, mem_resolve.2 ⟨hbs, hbp, hbo, ?_⟩, ?_⟩
      · rw [if_neg hempty]
        exact ⟨graph, hmem, handles.graph, hhandle, rfl⟩
      · exact Leg.agrees_iff.2 ⟨has, hap, hao, fun _ hbound => Option.some.inj hbound⟩

omit [Text.Hasher] in
lemma nodup_eraseDups {α : Type} [DecidableEq α] : ∀ xs : List α, xs.eraseDups.Nodup
  | [] => List.nodup_nil
  | x :: xs => by
    have hlt := List.length_filter_le (fun other => !other == x) xs
    rw [List.eraseDups_cons]
    exact List.nodup_cons.2 ⟨by simp, nodup_eraseDups _⟩
termination_by xs => xs.length

/-- No handles agree with two legs of a pattern, because these bind distinct graphs. -/
theorem apart_resolve (pattern : Pattern) (t : TermTable) :
    (Leg.resolve pattern t).Pairwise fun leg other =>
      ∀ handles, ¬ (leg.Agrees handles ∧ other.Agrees handles) := by
  rw [Leg.resolve]
  cases bindHandle t (pattern.subject.map .resource) with
  | none => exact List.Pairwise.nil
  | some subject =>
    cases bindHandle t (pattern.predicate.map Term.iri) with
    | none => exact List.Pairwise.nil
    | some predicate =>
      cases bindHandle t pattern.object with
      | none => exact List.Pairwise.nil
      | some object =>
        simp only [Option.bind_eq_bind, Option.bind_some]
        split
        next => exact List.pairwise_singleton _ _
        next =>
          rw [Option.getD_some, List.pairwise_map]
          refine (nodup_eraseDups _).imp fun hne handles ⟨hagrees, hother⟩ => hne ?_
          exact (hagrees .graph _ rfl).symm.trans (hother .graph _ rfl)

/-! ## Quads -/

namespace QuadStore.Sound

variable {s : QuadStore} {id : Nat} {q : Quad}

/-- **The records of a pattern are those of the quads that it admits.** -/
theorem mem_ids (h : s.Sound) :
    id ∈ s.ids pattern ↔ ∃ q, s.quad? id = some q ∧ pattern.admits q = true := by
  rw [ids, matchingAll, List.mem_flatMap]
  constructor
  · rintro ⟨leg, hleg, hid⟩
    obtain ⟨handles, hhandles, hagrees⟩ := (Leg.mem_matching h.statements).1 hid
    obtain ⟨q, hq⟩ := h.readable hhandles
    exact ⟨q, quad?_eq_some_iff.2 ⟨handles, hhandles, hq⟩,
      (agrees_resolve_iff h.terms hq).1 ⟨leg, hleg, hagrees⟩⟩
  · rintro ⟨q, hid, hadmits⟩
    obtain ⟨handles, hhandles, hq⟩ := quad?_eq_some_iff.1 hid
    obtain ⟨leg, hleg, hagrees⟩ := (agrees_resolve_iff h.terms hq).2 hadmits
    exact ⟨leg, hleg, (Leg.mem_matching h.statements).2 ⟨handles, hhandles, hagrees⟩⟩

/-- No record belongs to two legs. -/
lemma nodup_ids (h : s.Sound) (pattern : Pattern) : (s.ids pattern).Nodup := by
  rw [ids, matchingAll, List.nodup_flatMap]
  refine ⟨fun leg _ => Leg.nodup_matching h.statements leg,
    (apart_resolve pattern s.terms).imp ?_⟩
  intro leg other hapart id hid hother
  obtain ⟨handles, hhandles, hagrees⟩ := (Leg.mem_matching h.statements).1 hid
  obtain ⟨handles', hhandles', hagrees'⟩ := (Leg.mem_matching h.statements).1 hother
  obtain rfl := Option.some.inj (hhandles.symm.trans hhandles')
  exact hapart handles ⟨hagrees, hagrees'⟩

/-- **The quads of a pattern are the quads of the store that it admits**, -/
theorem mem_quads (h : s.Sound) :
    q ∈ s.quads pattern ↔ q ∈ s.contents ∧ pattern.admits q = true := by
  rw [quads, List.mem_filterMap, mem_contents, Holds]
  constructor
  · rintro ⟨id, hid, hq⟩
    obtain ⟨other, hother, hadmits⟩ := h.mem_ids.1 hid
    obtain rfl := Option.some.inj (hq.symm.trans hother)
    exact ⟨⟨id, hq⟩, hadmits⟩
  · rintro ⟨⟨id, hq⟩, hadmits⟩
    exact ⟨id, h.mem_ids.2 ⟨q, hq, hadmits⟩, hq⟩

/-- each of them once. -/
theorem nodup_quads (h : s.Sound) (pattern : Pattern) : (s.quads pattern).Nodup :=
  h.nodup_filterMap_quad? (h.nodup_ids pattern)

lemma toFinset_quads (h : s.Sound) (pattern : Pattern) :
    (s.quads pattern).toFinset = s.contents.filter fun q => pattern.admits q = true := by
  ext q
  rw [List.mem_toFinset, h.mem_quads, Finset.mem_filter]

/-- **The number of quads of a pattern**, also where it is not found by counting. -/
theorem count_eq (h : s.Sound) (pattern : Pattern) :
    s.count pattern = (s.quads pattern).length := by
  rw [count]
  split
  next hwild =>
    rw [h.size_eq, ← List.toFinset_card_of_nodup (h.nodup_quads pattern), h.toFinset_quads,
      Finset.filter_true_of_mem fun q _ => Pattern.admits_of_isWildcard hwild q]
  next => rfl

end QuadStore.Sound

end QuadBase.Store
