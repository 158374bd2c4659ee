import Mathlib.Algebra.BigOperators.Group.Finset.Basic
import QuadBase.Proofs.Store.Edits

/-!
# What counters tell about quads

A store estimates the number of quads of a pattern from the counters of its chains.  The counters
outlive the quads: a term that was used once keeps its handle, and its chains stay with counts of
zero.  This file says what an estimate is in terms of the quads alone.

* `tally` — how many of some quads have a component in a position.
* `Sound.count_chainAt` — a counter is the tally of the term of its handle.
* `Sound.estimate_eq` — **an estimate depends on nothing but the quads of the store.**  For each
  graph that the pattern allows it is the least tally of what is asked for there.
-/

namespace QuadBase.Store

open QuadBase.Rdf

/-! ## Components -/

/-- The term that names a graph, none for the default graph. -/
def graphTerm? : GraphName → Option Term
  | .defaultGraph => none
  | .named r => some (.resource r)

/-- The term in a position of a quad, none for the default graph. -/
def componentAt (q : Quad) : Position → Option Term
  | .subject => some (.resource q.subject)
  | .predicate => some (.iri q.predicate)
  | .object => some q.object
  | .graph => graphTerm? q.graph

/-- How many of some quads have a component in a position. -/
def tally (Q : Finset Quad) (p : Position) (component : Option Term) : Nat :=
  (Q.filter fun q => componentAt q p = component).card

/-- What a pattern asks for in one graph, or in any graph. -/
def asked (pattern : Pattern) (graph : Option GraphName) : PerPosition (Option (Option Term)) :=
  ⟨pattern.subject.map fun r => some (.resource r), pattern.predicate.map fun i => some (.iri i),
    pattern.object.map some, graph.map graphTerm?⟩

/-- The least tally of the components that are asked for, the number of all quads if there are
none. -/
def leastTally (Q : Finset Quad) (components : PerPosition (Option (Option Term))) : Nat :=
  (components.toList.filterMap fun (p, component) => component.map (tally Q p)).min?.getD Q.card

/-- The estimate for a pattern from the quads alone. -/
def estimateOf (Q : Finset Quad) (pattern : Pattern) : Nat :=
  if pattern.graphs.isEmpty then leastTally Q (asked pattern none)
  else ∑ graph ∈ pattern.graphs.toFinset, leastTally Q (asked pattern (some graph))

/-- If no quad has one of the components, then none is expected. -/
lemma leastTally_eq_zero {Q : Finset Quad} {components : PerPosition (Option (Option Term))}
    {p : Position} {component : Option Term} (hasked : components.get p = some component)
    (hnone : tally Q p component = 0) : leastTally Q components = 0 := by
  have hmem : 0 ∈ components.toList.filterMap fun (p, component) => component.map (tally Q p) :=
    List.mem_filterMap.2 ⟨(p, some component), PerPosition.mem_toList.2 hasked,
      congrArg some hnone⟩
  have hmin := List.min?_eq_some_iff.2 ⟨hmem, fun b _ => Nat.zero_le b⟩
  rw [leastTally, hmin, Option.getD_some]

/-! ## Handles -/

section Handles

variable {t : TermTable} {handles : PerPosition Nat} {q : Quad}

/-- The handles of a quad have the terms of its components. -/
lemma term?_eq_componentAt (hq : QuadStore.quadOf? t handles = some q) (p : Position) :
    t.term? (handles.get p) = componentAt q p := by
  obtain ⟨hs, hp, ho, hg⟩ := QuadStore.quadOf?_eq_some_iff.1 hq
  cases p with
  | subject => exact hs
  | predicate => exact hp
  | object => exact ho
  | graph =>
    change t.term? handles.graph = graphTerm? q.graph
    rw [TermTable.graphName?] at hg
    split at hg
    next hzero =>
      rw [← Option.some.inj hg, hzero]
      rfl
    next =>
      split at hg
      next r hr => rw [← Option.some.inj hg, hr]; rfl
      next => cases hg

variable [Text.Hasher]

/-- Handles are told apart by their terms. -/
lemma TermTable.Sound.term?_inj (h : t.Sound) {handle other : Nat} (hhandle : handle < t.size)
    (hother : other < t.size) : t.term? handle = t.term? other ↔ handle = other := by
  refine ⟨fun heq => ?_, congrArg _⟩
  cases hterm : t.term? handle with
  | some term => exact h.injective hterm (heq ▸ hterm)
  | none =>
    -- only the default graph has no term
    have hzero : ∀ {handle}, handle < t.size → t.term? handle = none → handle = 0 := by
      intro handle hlt hnone
      have hnot : ¬ (t.term? handle).isSome := by simp [hnone]
      rw [TermTable.term?_isSome_iff] at hnot
      rw [TermTable.size] at hlt
      omega
    rw [hzero hhandle hterm, hzero hother (heq ▸ hterm)]

/-- A component that is asked for and known is bound to the handle with its term. -/
lemma bindHandle_eq_some (h : t.Sound) {term? : Option Term} {bound : Option Nat}
    (hbind : bindHandle t term? = some bound) :
    bound.map t.term? = term?.map some ∧ ∀ handle ∈ bound, handle < t.size := by
  cases term? with
  | none =>
    obtain rfl := Option.some.inj hbind
    exact ⟨rfl, fun _ hmem => by cases hmem⟩
  | some term =>
    obtain ⟨handle, hhandle, rfl⟩ := Option.map_eq_some_iff.1 hbind
    rw [h.handle?_eq_some_iff] at hhandle
    refine ⟨by rw [Option.map_some, hhandle]; rfl, ?_⟩
    rintro _ ⟨⟩
    exact TermTable.lt_size_of_term? hhandle

lemma graphHandle?_spec (h : t.Sound) {graph : GraphName} {handle : Nat}
    (hhandle : t.graphHandle? graph = some handle) :
    t.term? handle = graphTerm? graph ∧ handle < t.size := by
  cases graph with
  | defaultGraph =>
    obtain rfl := Option.some.inj hhandle
    exact ⟨rfl, Nat.succ_pos _⟩
  | named r =>
    have hterm := h.handle?_eq_some_iff.1 hhandle
    exact ⟨hterm, TermTable.lt_size_of_term? hterm⟩

/-- A sum over the handles of the known graphs is a sum over all graphs, if unknown ones add
nothing. -/
lemma sum_graphHandle? (h : t.Sound) (graphs : List GraphName) {f : Nat → Nat}
    {g : GraphName → Nat}
    (hknown : ∀ {graph handle}, t.graphHandle? graph = some handle → f handle = g graph)
    (hunknown : ∀ {graph}, t.graphHandle? graph = none → g graph = 0) :
    ((graphs.filterMap t.graphHandle?).eraseDups.map f).sum =
      ∑ graph ∈ graphs.toFinset, g graph := by
  have hmem : ∀ {handle}, handle ∈ (graphs.filterMap t.graphHandle?).eraseDups.toFinset ↔
      ∃ graph ∈ graphs, t.graphHandle? graph = some handle := by
    intro handle
    rw [List.mem_toFinset, List.mem_eraseDups, List.mem_filterMap]
  have hname : ∀ {graph handle}, t.graphHandle? graph = some handle →
      (t.graphName? handle).getD .defaultGraph = graph := by
    intro graph handle hhandle
    rw [h.graphHandle?_eq_some_iff.1 hhandle, Option.getD_some]
  rw [← List.sum_toFinset f (nodup_eraseDups _)]
  refine Finset.sum_of_injOn (fun handle => (t.graphName? handle).getD .defaultGraph) ?_ ?_ ?_ ?_
  · intro handle hhandle other hother heq
    obtain ⟨graph, -, hgraph⟩ := hmem.1 hhandle
    obtain ⟨graph', -, hgraph'⟩ := hmem.1 hother
    dsimp only at heq
    rw [hname hgraph, hname hgraph'] at heq
    rw [heq, hgraph'] at hgraph
    exact (Option.some.inj hgraph).symm
  · intro handle hhandle
    obtain ⟨graph, hgraph, heq⟩ := hmem.1 hhandle
    dsimp only
    rw [hname heq]
    exact List.mem_toFinset.2 hgraph
  · intro graph hgraph hnot
    cases hhandle : t.graphHandle? graph with
    | none => exact hunknown hhandle
    | some handle =>
      exact absurd ⟨handle, hmem.2 ⟨graph, List.mem_toFinset.1 hgraph, hhandle⟩, hname hhandle⟩ hnot
  · intro handle hhandle
    obtain ⟨graph, -, heq⟩ := hmem.1 hhandle
    rw [hknown heq, hname heq]

end Handles

/-! ## Counters -/

namespace Leg

/-- The count of the cheapest chain is the least count. -/
lemma count_cheapest (entries : List (Position × Chain)) :
    (cheapest entries).map (·.2.count) = (entries.map (·.2.count)).min? := by
  induction entries with
  | nil => rfl
  | cons entry rest ih =>
    rw [List.map_cons, List.min?_cons, ← ih, cheapest]
    cases cheapest rest with
    | none => rfl
    | some other =>
      dsimp only [Option.map_some, Option.elim_some]
      split
      next hlt => rw [Option.map_some, Nat.min_eq_right hlt.le]
      next hnot => rw [Option.map_some, Nat.min_eq_left (Nat.not_lt.1 hnot)]

/-- The estimate of a leg is its least count. -/
lemma estimate_eq_min? (leg : Leg) (s : Statements) :
    leg.estimate s = ((leg.boundChains s).map (·.2.count)).min?.getD s.live := by
  rw [← count_cheapest, estimate]
  cases cheapest (leg.boundChains s) <;> rfl

end Leg

namespace QuadStore

variable [Text.Hasher] {s : QuadStore} {pattern : Pattern}

namespace Sound

/-- **A counter is the number of quads with the term of its handle.** -/
theorem count_chainAt (h : s.Sound) {handle : Nat} (hlt : handle < s.terms.size) (p : Position) :
    (s.statements.chainAt handle p).count = tally s.contents p (s.terms.term? handle) := by
  have hl := h.statements.isChain handle p
  have hreadable : ∀ id ∈ (s.statements.chain handle p).filter
      (Statements.isLiveAt s.statements.records), (s.quad? id).isSome = true := fun id hid =>
    h.quad?_isSome_iff.2 (List.mem_filter.1 hid).2
  have hnodup := h.nodup_filterMap_quad?
    (hl.linked.nodup.filter (Statements.isLiveAt s.statements.records))
  rw [hl.count_eq, tally, ← List.filter_eq_self.2 hreadable]
  have hlength : ∀ ids : List Nat,
      (ids.filter fun id => (s.quad? id).isSome).length = (ids.filterMap s.quad?).length :=
    fun ids => by rw [List.length_filterMap_eq_countP, List.countP_eq_length_filter]
  rw [hlength, ← List.toFinset_card_of_nodup hnodup]
  congr 1
  ext q
  rw [List.mem_toFinset, List.mem_filterMap, Finset.mem_filter, mem_contents, Holds]
  simp only [List.mem_filter, ← h.quad?_isSome_iff]
  have hmem : ∀ {id}, s.quad? id = some q →
      (id ∈ s.statements.chain handle p ↔ componentAt q p = s.terms.term? handle) := by
    intro id hid
    obtain ⟨handles, hhandles, hq⟩ := quad?_eq_some_iff.1 hid
    rw [hl.live_mem_iff hhandles, ← term?_eq_componentAt hq,
      h.terms.term?_inj (h.chains_size ▸ h.lt_chains hq p) hlt]
  constructor
  · rintro ⟨id, ⟨hid, -⟩, hq⟩
    exact ⟨⟨id, hq⟩, (hmem hq).1 hid⟩
  · rintro ⟨⟨id, hq⟩, hcomponent⟩
    exact ⟨id, ⟨(hmem hq).2 hcomponent, by rw [hq]; rfl⟩, hq⟩

/-- No quad has a term that the store does not know. -/
lemma tally_eq_zero (h : s.Sound) {term : Term} (hunknown : s.terms.handle? term = none)
    (p : Position) : tally s.contents p (some term) = 0 := by
  rw [tally, Finset.card_eq_zero, Finset.filter_eq_empty_iff]
  intro q hmem hcomponent
  obtain ⟨id, hid⟩ := mem_contents.1 hmem
  obtain ⟨handles, -, hq⟩ := quad?_eq_some_iff.1 hid
  exact h.terms.handle?_eq_none_iff.1 hunknown _ ((term?_eq_componentAt hq p).trans hcomponent)

/-- **The estimate of a leg is the least tally of the terms that it binds.** -/
theorem estimate_leg (h : s.Sound) {leg : Leg} {components : PerPosition (Option (Option Term))}
    (hcomponents : ∀ p, (leg.get p).map s.terms.term? = components.get p)
    (hlt : ∀ p, ∀ handle ∈ leg.get p, handle < s.terms.size) :
    leg.estimate s.statements = leastTally s.contents components := by
  have hcount : ∀ p, ((leg.get p).map fun handle => (s.statements.chainAt handle p).count) =
      (components.get p).map (tally s.contents p) := by
    intro p
    rw [← hcomponents, Option.map_map]
    exact Option.map_congr fun handle hmem => h.count_chainAt (hlt p handle hmem) p
  have hrow : (leg.boundChains s.statements).map (·.2.count) =
      components.toList.filterMap fun (p, component) => component.map (tally s.contents p) := by
    rw [Leg.boundChains, List.map_filterMap]
    simp only [Option.map_map, Function.comp_def]
    have hs := hcount .subject
    have hp := hcount .predicate
    have ho := hcount .object
    have hg := hcount .graph
    simp only [PerPosition.get] at hs hp ho hg
    simp only [PerPosition.toList, List.filterMap_cons, hs, hp, ho, hg, List.filterMap_nil]
  rw [Leg.estimate_eq_min?, hrow, leastTally, ← h.size_eq, size]

/-- Where all components but the graph are known, the legs are those of the known graphs. -/
lemma sum_estimate_legs (h : s.Sound) {subject predicate object : Option Nat}
    (hsubject : bindHandle s.terms (pattern.subject.map .resource) = some subject)
    (hpredicate : bindHandle s.terms (pattern.predicate.map Term.iri) = some predicate)
    (hobject : bindHandle s.terms pattern.object = some object) :
    ((s.legs pattern).map fun leg => Leg.estimate leg s.statements).sum =
      estimateOf s.contents pattern := by
  obtain ⟨hterms, hlts⟩ := bindHandle_eq_some h.terms hsubject
  obtain ⟨htermp, hltp⟩ := bindHandle_eq_some h.terms hpredicate
  obtain ⟨htermo, hlto⟩ := bindHandle_eq_some h.terms hobject
  rw [Option.map_map] at hterms htermp
  have hleg : ∀ {graph : Option Nat} {name : Option GraphName},
      graph.map s.terms.term? = name.map graphTerm? →
      (∀ handle ∈ graph, handle < s.terms.size) →
      Leg.estimate ⟨subject, predicate, object, graph⟩ s.statements =
        leastTally s.contents (asked pattern name) := by
    intro graph name htermg hltg
    refine h.estimate_leg ?_ ?_
    · rintro (_ | _ | _ | _)
      exacts [hterms, htermp, htermo, htermg]
    · rintro (_ | _ | _ | _)
      exacts [hlts, hltp, hlto, hltg]
  rw [legs, Leg.resolve, hsubject, hpredicate, hobject, estimateOf]
  simp only [Option.bind_eq_bind, Option.bind_some]
  split
  next =>
    rw [Option.getD_some, List.map_singleton, List.sum_singleton]
    exact hleg rfl fun _ hmem => by cases hmem
  next =>
    rw [Option.getD_some, List.map_map]
    refine sum_graphHandle? h.terms pattern.graphs ?_ ?_
    · intro graph handle hhandle
      obtain ⟨hterm, hlt⟩ := graphHandle?_spec h.terms hhandle
      refine hleg (by rw [Option.map_some, Option.map_some, hterm]) ?_
      rintro _ ⟨⟩
      exact hlt
    · intro graph hunknown
      cases graph with
      | defaultGraph => cases hunknown
      | named r => exact leastTally_eq_zero (p := .graph) rfl (h.tally_eq_zero hunknown .graph)

/-- If a component is unknown, then nothing is expected in any graph. -/
lemma estimateOf_eq_zero (h : s.Sound) {p : Position} {term : Term}
    (hasked : ∀ graph, (asked pattern graph).get p = some (some term))
    (hunknown : s.terms.handle? term = none) : estimateOf s.contents pattern = 0 := by
  have hzero : ∀ graph, leastTally s.contents (asked pattern graph) = 0 := fun graph =>
    leastTally_eq_zero (hasked graph) (h.tally_eq_zero hunknown p)
  rw [estimateOf]
  split
  · exact hzero none
  · exact Finset.sum_eq_zero fun graph _ => hzero (some graph)

/-- **An estimate depends on nothing but the quads of the store.** -/
theorem estimate_eq (h : s.Sound) (pattern : Pattern) :
    s.estimate pattern = estimateOf s.contents pattern := by
  have hsum : s.estimate pattern =
      ((s.legs pattern).map fun leg => Leg.estimate leg s.statements).sum := by
    rw [estimate, List.sum_eq_foldl, List.foldl_map]
  have hnone : ∀ {p : Position} {component : Option Term},
      bindHandle s.terms component = none → s.legs pattern = [] →
      (∀ graph, (asked pattern graph).get p = component.map some) →
      s.estimate pattern = estimateOf s.contents pattern := by
    intro p component hbind hlegs hasked
    cases component with
    | none => cases hbind
    | some term =>
      rw [hsum, hlegs, h.estimateOf_eq_zero hasked (Option.map_eq_none_iff.1 hbind)]
      rfl
  cases hs : bindHandle s.terms (pattern.subject.map .resource) with
  | none =>
    refine hnone (p := .subject) hs (by rw [legs, Leg.resolve, hs]; rfl) fun _ => ?_
    exact (Option.map_map _ _ _).symm
  | some subject =>
    cases hp : bindHandle s.terms (pattern.predicate.map Term.iri) with
    | none =>
      refine hnone (p := .predicate) hp (by rw [legs, Leg.resolve, hs, hp]; rfl) fun _ => ?_
      exact (Option.map_map _ _ _).symm
    | some predicate =>
      cases ho : bindHandle s.terms pattern.object with
      | none =>
        refine hnone (p := .object) ho ?_ fun _ => rfl
        rw [legs, Leg.resolve, hs, hp, ho]
        rfl
      | some object => rw [hsum, h.sum_estimate_legs hs hp ho]

end Sound

end QuadStore

end QuadBase.Store
