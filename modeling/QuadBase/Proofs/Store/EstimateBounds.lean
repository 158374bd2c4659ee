import Mathlib.Algebra.Order.BigOperators.Group.Finset
import QuadBase.Proofs.Store.Estimates
import QuadBase.Proofs.Store.Reachable

/-!
# What an estimate is good for

An estimate is never too low.  The quads of a pattern fall apart by their graphs, and those in one
graph are among the quads with any component that is asked for there.  Where a single component is
asked for, they are all of these, so the estimate is the number itself.

* `Meets` — a quad has the components that are asked for.
* `card_meets_le`, `card_meets_eq` — the least tally against the number of these quads.
* `card_admitted` — the quads of a pattern, graph by graph.
* `reached_estimate` — **an estimate is the sum of the least tallies**, never below the number of
  the quads, and equal to it where a pattern binds one position at most.
-/

namespace QuadBase

open QuadBase.Rdf

/-- The pattern does not leave the position open. -/
def Rdf.Pattern.Binds (pattern : Pattern) : Position → Prop
  | .subject => pattern.subject ≠ none
  | .predicate => pattern.predicate ≠ none
  | .object => pattern.object ≠ none
  | .graph => pattern.graphs ≠ []

namespace Store

variable {Q : Finset Quad} {components : PerPosition (Option (Option Term))} {pattern : Pattern}
  {q : Quad}

/-! ## One graph -/

/-- The quad has all components that are asked for. -/
def Meets (components : PerPosition (Option (Option Term))) (q : Quad) : Prop :=
  ∀ p, ∀ component ∈ components.get p, componentAt q p = component

instance (components : PerPosition (Option (Option Term))) : DecidablePred (Meets components) :=
  fun q => decidable_of_iff
    (∀ p ∈ [Position.subject, .predicate, .object, .graph],
      ∀ component ∈ components.get p, componentAt q p = component)
    ⟨fun h p => h p (by cases p <;> decide), fun h p _ => h p⟩

/-- The tallies of the components that are asked for. -/
def tallies (Q : Finset Quad) (components : PerPosition (Option (Option Term))) : List Nat :=
  components.toList.filterMap fun entry => entry.2.map (tally Q entry.1)

lemma leastTally_eq : leastTally Q components = (tallies Q components).min?.getD Q.card := rfl

lemma mem_tallies {n : Nat} :
    n ∈ tallies Q components ↔ ∃ p, (components.get p).map (tally Q p) = some n := by
  rw [tallies, List.mem_filterMap]
  constructor
  · rintro ⟨⟨p, component⟩, hentry, hn⟩
    exact ⟨p, PerPosition.mem_toList.1 hentry ▸ hn⟩
  · rintro ⟨p, hn⟩
    exact ⟨(p, components.get p), PerPosition.mem_toList.2 rfl, hn⟩

/-- The least tally is that of a component that is asked for, if there is one. -/
lemma leastTally_cases (Q : Finset Quad) (components : PerPosition (Option (Option Term))) :
    (leastTally Q components = Q.card ∧ ∀ p, components.get p = none) ∨
      ∃ p component, components.get p = some component ∧
        leastTally Q components = tally Q p component := by
  rw [leastTally_eq]
  cases hmin : (tallies Q components).min? with
  | none =>
    refine Or.inl ⟨rfl, ?_⟩
    intro p
    rw [List.min?_eq_none_iff] at hmin
    by_contra hasked
    obtain ⟨component, hcomponent⟩ := Option.ne_none_iff_exists'.1 hasked
    have hentry : tally Q p component ∈ tallies Q components :=
      mem_tallies.2 ⟨p, by rw [hcomponent]; rfl⟩
    rw [hmin] at hentry
    exact List.not_mem_nil hentry
  | some n =>
    obtain ⟨p, hn⟩ := mem_tallies.1 (List.min?_mem hmin)
    obtain ⟨component, hcomponent, rfl⟩ := Option.map_eq_some_iff.1 hn
    exact Or.inr ⟨p, component, hcomponent, rfl⟩

/-- **The quads that meet all components are no more than the least tally.** -/
theorem card_meets_le (Q : Finset Quad) (components : PerPosition (Option (Option Term))) :
    (Q.filter (Meets components)).card ≤ leastTally Q components := by
  rcases leastTally_cases Q components with ⟨hleast, -⟩ | ⟨p, component, hasked, hleast⟩
  · rw [hleast]
    exact Finset.card_filter_le _ _
  · rw [hleast, tally]
    exact Finset.card_le_card (Finset.monotone_filter_right _ fun q _ hq => hq p component hasked)

/-- **They are as many as the least tally**, where one component is asked for at most. -/
theorem card_meets_eq (hone : ∀ p p', components.get p ≠ none → components.get p' ≠ none → p = p') :
    (Q.filter (Meets components)).card = leastTally Q components := by
  rcases leastTally_cases Q components with ⟨hleast, hnone⟩ | ⟨p, component, hasked, hleast⟩
  · rw [hleast, Finset.filter_true_of_mem]
    intro q _ p component hcomponent
    rw [hnone] at hcomponent
    cases hcomponent
  · rw [hleast, tally]
    congr 1
    refine Finset.filter_congr fun q _ => ⟨fun hq => hq p component hasked, ?_⟩
    intro hq p' component' hasked'
    obtain rfl := hone p p' (by rw [hasked]; exact Option.some_ne_none _)
      (by rw [Option.mem_def.1 hasked']; exact Option.some_ne_none _)
    rw [hq, Option.some.inj (hasked.symm.trans hasked')]

/-! ## All graphs -/

lemma graphTerm?_inj {graph other : GraphName} :
    graphTerm? graph = graphTerm? other ↔ graph = other := by
  cases graph <;> cases other <;> simp [graphTerm?]

lemma meets_iff : Meets components q ↔
    (∀ component ∈ components.subject, some (.resource q.subject) = component) ∧
    (∀ component ∈ components.predicate, some (.iri q.predicate) = component) ∧
    (∀ component ∈ components.object, some q.object = component) ∧
    ∀ component ∈ components.graph, graphTerm? q.graph = component := by
  constructor
  · exact fun h => ⟨h .subject, h .predicate, h .object, h .graph⟩
  · rintro ⟨hs, hp, ho, hg⟩ p
    cases p with
    | subject => exact hs
    | predicate => exact hp
    | object => exact ho
    | graph => exact hg

/-- What a pattern asks for in one graph, or in any. -/
lemma meets_asked_iff {graph : Option GraphName} : Meets (asked pattern graph) q ↔
    Meets (asked pattern none) q ∧ ∀ name ∈ graph, q.graph = name := by
  rw [meets_iff, meets_iff]
  simp only [asked, Option.map_none, Option.not_mem_none, false_imp_iff, implies_true, and_true,
    and_assoc, Option.mem_map, forall_exists_index, and_imp, forall_apply_eq_imp_iff₂,
    graphTerm?_inj]

/-- A component is asked for exactly where the pattern binds it. -/
lemma forall_mem_map_iff {α : Type} [DecidableEq α] {f : α → Option Term}
    (hf : Function.Injective f) {bound : Option α} {a : α} :
    (∀ component ∈ bound.map f, f a = component) ↔ bound.all (· == a) = true := by
  cases bound with
  | none => simp
  | some b =>
    simp only [Option.map_some, Option.mem_def, Option.some.injEq, forall_eq', hf.eq_iff,
      Option.all_some, beq_iff_eq]
    exact eq_comm

lemma admits_iff_meets : pattern.admits q = true ↔
    Meets (asked pattern none) q ∧ (pattern.graphs = [] ∨ q.graph ∈ pattern.graphs) := by
  have hsubject : Function.Injective fun r : Resource => some (Term.resource r) :=
    fun _ _ h => Term.resource.inj (Option.some.inj h)
  have hpredicate : Function.Injective fun i : Iri => some (Term.iri i) :=
    fun _ _ h => Resource.iri.inj (Term.resource.inj (Option.some.inj h))
  rw [meets_iff, Pattern.admits]
  simp only [asked, forall_mem_map_iff hsubject, forall_mem_map_iff hpredicate,
    forall_mem_map_iff (Option.some_injective Term), Option.map_none, Option.not_mem_none,
    false_imp_iff, implies_true, and_true, Bool.and_eq_true, Bool.or_eq_true, List.isEmpty_iff,
    List.contains_iff_mem, and_assoc]

/-- **The quads that a pattern admits are counted graph by graph.** -/
theorem card_admitted (Q : Finset Quad) (hgraphs : pattern.graphs ≠ []) :
    (Q.filter fun q => pattern.admits q = true).card =
      ∑ graph ∈ pattern.graphs.toFinset, (Q.filter (Meets (asked pattern (some graph)))).card := by
  have hunion : (Q.filter fun q => pattern.admits q = true) =
      pattern.graphs.toFinset.biUnion fun graph =>
        Q.filter (Meets (asked pattern (some graph))) := by
    ext q
    simp only [Finset.mem_filter, Finset.mem_biUnion, List.mem_toFinset, admits_iff_meets,
      or_iff_right hgraphs]
    constructor
    · rintro ⟨hq, hmeets, hgraph⟩
      exact ⟨q.graph, hgraph, hq, meets_asked_iff.2 ⟨hmeets, fun _ => Option.some.inj⟩⟩
    · rintro ⟨graph, hgraph, hq, hmeets⟩
      obtain ⟨hmeets, hname⟩ := meets_asked_iff.1 hmeets
      exact ⟨hq, hmeets, hname graph rfl ▸ hgraph⟩
  rw [hunion, Finset.card_biUnion]
  intro graph _ other _ hne
  refine Finset.disjoint_filter.2 fun q _ hmeets hother => hne ?_
  exact ((meets_asked_iff.1 hmeets).2 graph rfl).symm.trans ((meets_asked_iff.1 hother).2 other rfl)

lemma filter_admits_any (Q : Finset Quad) (hgraphs : pattern.graphs = []) :
    Q.filter (fun q => pattern.admits q = true) = Q.filter (Meets (asked pattern none)) := by
  refine Finset.filter_congr fun q _ => ?_
  rw [admits_iff_meets, and_iff_left (Or.inl hgraphs)]

/-- **An estimate is never too low.** -/
theorem card_admitted_le (Q : Finset Quad) (pattern : Pattern) :
    (Q.filter fun q => pattern.admits q = true).card ≤ estimateOf Q pattern := by
  rw [estimateOf]
  split
  next hgraphs =>
    rw [filter_admits_any Q (List.isEmpty_iff.1 hgraphs)]
    exact card_meets_le Q _
  next hgraphs =>
    rw [card_admitted Q (mt List.isEmpty_iff.2 hgraphs)]
    exact Finset.sum_le_sum fun graph _ => card_meets_le Q _

/-- What is asked for is bound. -/
lemma binds_of_asked {graph : Option GraphName} (hgraph : graph ≠ none → pattern.graphs ≠ [])
    {p : Position} (h : (asked pattern graph).get p ≠ none) : pattern.Binds p := by
  cases p with
  | subject => exact mt Option.map_eq_none_iff.2 h
  | predicate => exact mt Option.map_eq_none_iff.2 h
  | object => exact mt Option.map_eq_none_iff.2 h
  | graph => exact hgraph (mt Option.map_eq_none_iff.2 h)

/-- **An estimate is exact** where a pattern binds one position at most. -/
theorem card_admitted_eq (Q : Finset Quad)
    (hone : ∀ p p', pattern.Binds p → pattern.Binds p' → p = p') :
    (Q.filter fun q => pattern.admits q = true).card = estimateOf Q pattern := by
  have hmeets : ∀ {graph : Option GraphName}, (graph ≠ none → pattern.graphs ≠ []) →
      (Q.filter (Meets (asked pattern graph))).card = leastTally Q (asked pattern graph) := by
    intro graph hgraph
    refine card_meets_eq fun p p' hp hp' => ?_
    exact hone p p' (binds_of_asked hgraph hp) (binds_of_asked hgraph hp')
  rw [estimateOf]
  split
  next hgraphs =>
    rw [filter_admits_any Q (List.isEmpty_iff.1 hgraphs)]
    exact hmeets fun h => absurd rfl h
  next hgraphs =>
    have hne := mt List.isEmpty_iff.2 hgraphs
    rw [card_admitted Q hne]
    exact Finset.sum_congr rfl fun graph _ => hmeets fun _ => hne

/-! ## Reachable stores -/

section Reachable

variable [Text.Hasher]

lemma QuadStore.Sound.count_eq_card {s : QuadStore} (h : s.Sound) (pattern : Pattern) :
    s.count pattern = (s.contents.filter fun q => pattern.admits q = true).card := by
  rw [h.count_eq, ← h.toFinset_quads, List.toFinset_card_of_nodup (h.nodup_quads pattern)]

/-- **An estimate is the sum of the least tallies.**  Whatever has been done to a store, the
estimate for a pattern is, for each of its graphs or once for any graph, the least number of stored
quads with one of the components that are asked for, or of all stored quads if there are none.  It
is not below the number of quads of the pattern, and is this number if the pattern binds one
position at most. -/
theorem reached_estimate (config : Config) (operations : List Operation) (pattern : Pattern) :
    let s := reached config operations
    let Q := s.contents
    (∀ q, q ∈ Q ↔ s.contains q = true) ∧ Q.card = s.size ∧
    s.estimate pattern = estimateOf Q pattern ∧
    s.count pattern ≤ s.estimate pattern ∧
    ((∀ p p', pattern.Binds p → pattern.Binds p' → p = p') →
      s.count pattern = s.estimate pattern) := by
  intro s Q
  have hs : s.Sound := reached_sound config operations
  refine ⟨?_, hs.size_eq.symm, hs.estimate_eq pattern, ?_, ?_⟩
  · intro q
    rw [hs.contains_iff, QuadStore.mem_contents]
  · rw [hs.count_eq_card, hs.estimate_eq]
    exact card_admitted_le Q pattern
  · intro hone
    rw [hs.count_eq_card, hs.estimate_eq]
    exact card_admitted_eq Q hone

end Reachable

/-- Two quads have the subject, and two the object.  One has both, but two are expected. -/
theorem reached_estimate_crossing :
    let s := reached {} [.edit (.insert ⟨.blank "a", ⟨"p"⟩, .blank "b", .defaultGraph⟩),
      .edit (.insert ⟨.blank "a", ⟨"p"⟩, .blank "c", .defaultGraph⟩),
      .edit (.insert ⟨.blank "b", ⟨"p"⟩, .blank "c", .defaultGraph⟩)]
    s.count { subject := some (.blank "a") } = s.estimate { subject := some (.blank "a") } ∧
      s.count { subject := some (.blank "a"), object := some (.blank "c") } = 1 ∧
      s.estimate { subject := some (.blank "a"), object := some (.blank "c") } = 2 := by
  intro s
  refine ⟨?_, by decide +kernel, by decide +kernel⟩
  refine (reached_estimate {} _ { subject := some (.blank "a") }).2.2.2.2 ?_
  intro p p' hp hp'
  have hsubject : ∀ {p : Position},
      Pattern.Binds { subject := some (.blank "a") } p → p = .subject := by
    intro p hp
    cases p with
    | subject => rfl
    | predicate | object | graph => exact absurd rfl hp
  rw [hsubject hp, hsubject hp']

end Store

end QuadBase
