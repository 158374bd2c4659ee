import QuadBase.Proofs.Store.Removal
import QuadBase.Proofs.Store.Terms
import QuadBase.Store.Basic

/-!
# The quads of a store

`QuadStore.Sound` is the invariant of a store: its terms and its statements are sound, every handle
has its chains, and the handles of every live record can be read back as a quad.  In such a store
the quads and the live records are in bijection:

* `Sound.find?_eq_some_iff` — the record of a quad is the record that reads back as it.
* `Sound.contains_iff` — a quad is in the store if some record reads back as it (`Holds`).
* `contents` — **the set of quads**.  It has as many members as the store says it has
  (`Sound.size_eq`).

Quads survive new terms: `quadOf?_mono` says that handles read the same as long as they have the
same terms.
-/

namespace QuadBase.Store

open QuadBase.Rdf

variable [Text.Hasher]

/-! ## Handles of graphs -/

lemma TermTable.Sound.graphHandle?_eq_some_iff {t : TermTable} (h : t.Sound) {graph : GraphName}
    {handle : Nat} : t.graphHandle? graph = some handle ↔ t.graphName? handle = some graph := by
  rw [graphName?]
  cases graph with
  | defaultGraph =>
    rw [graphHandle?, Option.some.injEq]
    split
    next hzero => simp [hzero]
    next hpos =>
      refine iff_of_false (Ne.symm hpos) ?_
      split
      next => simp
      next => simp
  | named r =>
    rw [graphHandle?, h.handle?_eq_some_iff, term?]
    split
    next => simp
    next =>
      cases t.terms[handle - 1]? with
      | none => simp
      | some term => cases term <;> simp

namespace QuadStore

/-! ## Quads of handles -/

section Reading

omit [Text.Hasher]

variable {t t' : TermTable} {handles : PerPosition Nat} {q : Quad}

/-- Four handles read back as a quad if each has the term of its component. -/
lemma quadOf?_eq_some_iff : quadOf? t handles = some q ↔
    t.term? handles.subject = some (.resource q.subject) ∧
    t.term? handles.predicate = some (.iri q.predicate) ∧
    t.term? handles.object = some q.object ∧ t.graphName? handles.graph = some q.graph := by
  rw [quadOf?]
  split
  next subject predicate object graph hs hp ho hg =>
    rw [hs, hp, ho, hg]
    obtain ⟨qs, qp, qo, qg⟩ := q
    simp
  next hnone =>
    refine iff_of_false (by simp) ?_
    rintro ⟨hs, hp, ho, hg⟩
    exact hnone _ _ _ _ hs hp ho hg

/-- As long as handles keep their terms, they read the same. -/
lemma quadOf?_mono (hmono : ∀ {handle term}, t.term? handle = some term →
    t'.term? handle = some term) (h : quadOf? t handles = some q) :
    quadOf? t' handles = some q := by
  rw [quadOf?_eq_some_iff] at h ⊢
  obtain ⟨hs, hp, ho, hg⟩ := h
  refine ⟨hmono hs, hmono hp, hmono ho, ?_⟩
  rw [TermTable.graphName?] at hg ⊢
  split at hg
  next hzero => rw [if_pos hzero, hg]
  next hpos =>
    rw [if_neg hpos]
    split at hg
    next r hr =>
      rw [hmono hr]
      exact hg
    next => cases hg

end Reading

variable {s s' : QuadStore} {q : Quad} {id : Nat}

/-- Looking up the components of a quad and reading them back undo each other. -/
lemma handles?_eq_some_iff (h : s.terms.Sound) {handles : PerPosition Nat} :
    s.handles? q = some handles ↔ quadOf? s.terms handles = some q := by
  rw [quadOf?_eq_some_iff, ← h.handle?_eq_some_iff, ← h.handle?_eq_some_iff,
    ← h.handle?_eq_some_iff, ← h.graphHandle?_eq_some_iff, handles?]
  obtain ⟨subject, predicate, object, graph⟩ := handles
  simp only [Option.bind_eq_bind, Option.bind_eq_some_iff, Option.some.injEq,
    PerPosition.mk.injEq]
  constructor
  · rintro ⟨_, hs, _, hp, _, ho, _, hg, rfl, rfl, rfl, rfl⟩
    exact ⟨hs, hp, ho, hg⟩
  · rintro ⟨hs, hp, ho, hg⟩
    exact ⟨_, hs, _, hp, _, ho, _, hg, rfl, rfl, rfl, rfl⟩

/-! ## The invariant -/

/-- **The invariant of a store.** -/
structure Sound (s : QuadStore) : Prop where
  terms : s.terms.Sound
  statements : s.statements.Sound
  settled : s.statements.Settled
  /-- Every handle has its chains. -/
  chains_size : s.statements.chains.size = s.terms.size
  /-- The handles of a live record can be read back. -/
  readable : ∀ {id handles}, s.statements.terms? id = some handles →
    ∃ q, quadOf? s.terms handles = some q

theorem create_sound (config : Config) : (create config).Sound where
  terms := TermTable.create_sound config.terms
  statements := Statements.create_sound config.statements 1
  settled := Or.inl rfl
  chains_size := Array.size_replicate
  readable {id handles} h := by
    rw [Statements.terms?] at h
    simp [create, Statements.create] at h

/-- Some record reads back as the quad. -/
def Holds (s : QuadStore) (q : Quad) : Prop :=
  ∃ id, s.quad? id = some q

namespace Sound

omit [Text.Hasher] in
lemma quad?_eq_some_iff : s.quad? id = some q ↔
    ∃ handles, s.statements.terms? id = some handles ∧ quadOf? s.terms handles = some q :=
  Option.bind_eq_some_iff

/-- **The record of a quad is the one that reads back as it.** -/
theorem find?_eq_some_iff (h : s.Sound) : s.find? q = some id ↔ s.quad? id = some q := by
  rw [find?, Option.bind_eq_some_iff, quad?_eq_some_iff]
  refine exists_congr ?_
  intro handles
  rw [handles?_eq_some_iff h.terms, h.statements.find?_eq_some_iff, and_comm]

/-- No two records read back as the same quad. -/
lemma quad?_injective (h : s.Sound) {other : Nat} (hid : s.quad? id = some q)
    (hother : s.quad? other = some q) : id = other := by
  rw [← h.find?_eq_some_iff] at hid hother
  exact Option.some.inj (hid.symm.trans hother)

theorem contains_iff (h : s.Sound) : s.contains q = true ↔ s.Holds q := by
  rw [contains, Option.isSome_iff_exists]
  exact exists_congr fun id => h.find?_eq_some_iff

/-- The live records are those that can be read. -/
lemma quad?_isSome_iff (h : s.Sound) :
    (s.quad? id).isSome ↔ Statements.isLiveAt s.statements.records id = true := by
  rw [Option.isSome_iff_exists, Statements.isLiveAt_iff]
  constructor
  · rintro ⟨q, hq⟩
    obtain ⟨handles, hhandles, -⟩ := quad?_eq_some_iff.1 hq
    exact ⟨handles, hhandles⟩
  · rintro ⟨handles, hhandles⟩
    obtain ⟨q, hq⟩ := h.readable hhandles
    exact ⟨q, quad?_eq_some_iff.2 ⟨handles, hhandles, hq⟩⟩

/-- Distinct records read back as distinct quads. -/
lemma nodup_filterMap_quad? (h : s.Sound) {ids : List Nat} (hnodup : ids.Nodup) :
    (ids.filterMap s.quad?).Nodup :=
  hnodup.filterMap fun _ _ _ hid hother => h.quad?_injective hid hother

end Sound

/-! ## The set of quads -/

omit [Text.Hasher] in
/-- The quads of all records. -/
def contents (s : QuadStore) : Finset Quad :=
  ((List.range s.statements.records.size).filterMap s.quad?).toFinset

omit [Text.Hasher] in
lemma mem_contents : q ∈ s.contents ↔ s.Holds q := by
  rw [contents, List.mem_toFinset, List.mem_filterMap]
  refine exists_congr fun id => and_iff_right_of_imp ?_
  intro hq
  obtain ⟨handles, hhandles, -⟩ := Sound.quad?_eq_some_iff.1 hq
  exact List.mem_range.2 (Statements.lt_size_of_isLiveAt (Statements.isLiveAt_of_terms? hhandles))

/-- **The size of a store is the number of its quads.** -/
theorem Sound.size_eq (h : s.Sound) : s.size = s.contents.card := by
  have hlength : ((List.range s.statements.records.size).filterMap s.quad?).length =
      (Statements.liveSet s.statements.records).card := by
    rw [List.length_filterMap_eq_countP, List.countP_eq_length_filter,
      ← List.toFinset_card_of_nodup (List.nodup_range.filter _)]
    congr 1
    ext id
    rw [List.mem_toFinset, List.mem_filter, List.mem_range, Statements.mem_liveSet,
      h.quad?_isSome_iff]
    exact and_iff_right_of_imp Statements.lt_size_of_isLiveAt
  rw [contents, List.toFinset_card_of_nodup (h.nodup_filterMap_quad? List.nodup_range), hlength]
  exact h.statements.live_eq

lemma Sound.isEmpty_iff (h : s.Sound) : s.isEmpty = true ↔ s.contents = ∅ := by
  rw [isEmpty, beq_iff_eq, h.size_eq, Finset.card_eq_zero]

omit [Text.Hasher] in
/-- Records that keep their handles keep their quads, if handles keep their terms. -/
lemma quad?_congr (hreadable : ∀ {id handles}, s.statements.terms? id = some handles →
      ∃ q, quadOf? s.terms handles = some q)
    (hmono : ∀ {handle term}, s.terms.term? handle = some term → s'.terms.term? handle = some term)
    (hsame : s'.statements.terms? id = s.statements.terms? id) : s'.quad? id = s.quad? id := by
  rw [quad?, quad?, hsame]
  cases hhandles : s.statements.terms? id with
  | none => rfl
  | some handles =>
    obtain ⟨q, hq⟩ := hreadable hhandles
    rw [Option.bind_some, Option.bind_some, hq, quadOf?_mono hmono hq]

end QuadStore

end QuadBase.Store
