import QuadBase.Proofs.Store.Growth

/-!
# Additions that succeed

An addition fails only if a stock runs out: no handle is left for a new term, or no record for a new
statement.  A store *affords* some terms and quads if it will not come to this, and then adding the
quads succeeds, and gives handles to their terms and to no others.

The chain of lemmas follows the additions step by step, as in `Gains`, which says what the steps do
if they succeed.

* `known` — the terms that have a handle.
* `Affords` — what a store must have left; `Acquires` — what it has got after an addition.
* `Succeeds.andThen` — **steps that a store can afford together succeed one after the other.**
* `Sound.succeeds_extendFrom` — adding quads succeeds where their terms and they themselves are
  afforded.
-/

namespace QuadBase.Rdf

/-- The terms of a graph name.  The default graph has none. -/
def GraphName.terms : GraphName → Finset Term
  | .defaultGraph => ∅
  | .named r => {.resource r}

/-- The terms that occur in a quad. -/
def Quad.terms (q : Quad) : Finset Term :=
  {.resource q.subject} ∪ ({.iri q.predicate} ∪ ({q.object} ∪ q.graph.terms))

/-- The terms that occur in some quads. -/
def termsOf (quads : Finset Quad) : Finset Term :=
  quads.biUnion Quad.terms

end QuadBase.Rdf

namespace QuadBase.Store

open QuadBase.Rdf

variable [Text.Hasher]

namespace TermTable

variable {t : TermTable} {handle : Nat}

/-- No term is kept twice. -/
lemma Sound.nodup (h : t.Sound) : t.terms.toList.Nodup := by
  rw [List.nodup_iff_getElem?_ne_getElem?]
  intro i j hij hj heq
  have hlater : t.terms[j]? = some t.terms[j] := Array.getElem?_eq_getElem hj
  have hearlier : t.terms[i]? = some t.terms[j] := by
    rwa [Array.getElem?_toList, Array.getElem?_toList, hlater] at heq
  have hsame : i + 1 = j + 1 := h.injective (term?_eq_some_iff.2 ⟨Nat.succ_pos i, hearlier⟩)
    (term?_eq_some_iff.2 ⟨Nat.succ_pos j, hlater⟩)
  omega

omit [Text.Hasher] in
/-- A handle names a graph by the resource that it stands for. -/
lemma graphName?_eq_named_iff {r : Resource} :
    t.graphName? handle = some (.named r) ↔ t.term? handle = some (.resource r) := by
  rw [graphName?, term?]
  split
  next => simp
  next =>
    cases t.terms[handle - 1]? with
    | none => simp
    | some term => cases term <;> simp

end TermTable

namespace QuadStore

variable {s s' s'' : QuadStore} {terms more : Finset Term} {new others : Finset Quad}
  {α β : Type}

/-! ## Known terms -/

omit [Text.Hasher] in
/-- The terms that have a handle. -/
def known (s : QuadStore) : Finset Term :=
  s.terms.terms.toList.toFinset

omit [Text.Hasher] in
lemma mem_known {term : Term} : term ∈ s.known ↔ ∃ handle, s.terms.term? handle = some term := by
  rw [known, List.mem_toFinset, List.mem_iff_getElem?]
  constructor
  · rintro ⟨i, hi⟩
    exact ⟨i + 1, TermTable.term?_eq_some_iff.2 ⟨Nat.succ_pos i, by simpa using hi⟩⟩
  · rintro ⟨handle, hterm⟩
    exact ⟨handle - 1, by simpa using (TermTable.term?_eq_some_iff.1 hterm).2⟩

lemma Sound.handle?_isSome_iff (h : s.Sound) {term : Term} :
    (s.terms.handle? term).isSome ↔ term ∈ s.known := by
  rw [Option.isSome_iff_exists, mem_known]
  exact exists_congr fun handle => h.terms.handle?_eq_some_iff

/-- Every term has one handle, and the default graph has one. -/
lemma Sound.card_known (h : s.Sound) : s.known.card + 1 = s.terms.size := by
  rw [known, List.toFinset_card_of_nodup h.terms.nodup, Array.length_toList, TermTable.size]

omit [Text.Hasher] in
/-- The terms of the quads of a store are known. -/
lemma Sound.terms_subset_known {q : Quad} (hq : s.Holds q) : q.terms ⊆ s.known := by
  obtain ⟨id, hid⟩ := hq
  obtain ⟨handles, -, hquad⟩ := Sound.quad?_eq_some_iff.1 hid
  obtain ⟨hs, hp, ho, hg⟩ := quadOf?_eq_some_iff.1 hquad
  have hgraph : q.graph.terms ⊆ s.known := by
    cases hname : q.graph with
    | defaultGraph => exact Finset.empty_subset _
    | named r =>
      rw [hname, TermTable.graphName?_eq_named_iff] at hg
      exact Finset.singleton_subset_iff.2 (mem_known.2 ⟨_, hg⟩)
  simp only [Quad.terms, Finset.union_subset_iff, Finset.singleton_subset_iff]
  exact ⟨mem_known.2 ⟨_, hs⟩, mem_known.2 ⟨_, hp⟩, mem_known.2 ⟨_, ho⟩, hgraph⟩

/-! ## What a store can afford -/

/-- `s'` has the quads of `s` and the `new` ones, and knows the terms of `s` and the given ones. -/
structure Acquires (s : QuadStore) (terms : Finset Term) (new : Finset Quad) (s' : QuadStore) :
    Prop extends Gains s new s' where
  known_eq : s'.known = s.known ∪ terms
  zombies_eq : s'.statements.zombies = s.statements.zombies

omit [Text.Hasher] in
/-- There are handles for some terms and records for some quads, and all records that are not live
can be used. -/
structure Affords (s : QuadStore) (terms : Finset Term) (new : Finset Quad) : Prop where
  zombies_eq : s.statements.zombies = #[]
  known_lt : (s.known ∪ terms).card < TermTable.capacity
  contents_le : (s.contents ∪ new).card ≤ Statements.capacity

/-- A change succeeds and acquires terms and quads if the store can afford them. -/
def Succeeds (s : QuadStore) (terms : Finset Term) (new : Finset Quad) (c : Change α)
    (done : α → QuadStore → Prop) : Prop :=
  s.Affords terms new →
    Leads c (fun _ _ => False) fun a s' => Acquires s terms new s' ∧ done a s'

omit [Text.Hasher] in
lemma Affords.mono (h : s.Affords (terms ∪ more) (new ∪ others)) : s.Affords terms new :=
  ⟨h.zombies_eq,
    (Finset.card_le_card (Finset.union_subset_union_right Finset.subset_union_left)).trans_lt
      h.known_lt,
    (Finset.card_le_card (Finset.union_subset_union_right Finset.subset_union_left)).trans
      h.contents_le⟩

/-- What has been acquired does not have to be afforded again. -/
lemma Affords.after (h : s.Affords (terms ∪ more) (new ∪ others)) (hs' : Acquires s terms new s') :
    s'.Affords more others := by
  refine ⟨hs'.zombies_eq.trans h.zombies_eq, ?_, ?_⟩
  · rw [hs'.known_eq, Finset.union_assoc]
    exact h.known_lt
  · rw [hs'.contents_eq, Finset.union_assoc]
    exact h.contents_le

lemma Acquires.refl (h : s.Sound) : Acquires s ∅ ∅ s :=
  ⟨Gains.refl h, (Finset.union_empty _).symm, rfl⟩

lemma Acquires.trans (h : Acquires s terms new s') (h' : Acquires s' more others s'') :
    Acquires s (terms ∪ more) (new ∪ others) s'' :=
  ⟨h.toGains.trans h'.toGains, by rw [h'.known_eq, h.known_eq, Finset.union_assoc],
    h'.zombies_eq.trans h.zombies_eq⟩

/-- **Steps that a store can afford together succeed one after the other.** -/
lemma Succeeds.andThen {c : Change α} {next : α → QuadStore → Change β}
    {done : α → QuadStore → Prop} {done' : β → QuadStore → Prop} (hc : Succeeds s terms new c done)
    (hnext : ∀ a s', Acquires s terms new s' → done a s' →
      Succeeds s' more others (next a s') done') :
    Succeeds s (terms ∪ more) (new ∪ others) (QuadStore.andThen c next) done' := by
  intro hroom
  refine (hc hroom.mono).andThen ?_
  rintro a s' ⟨hs', hdone⟩
  refine (hnext a s' hs' hdone (hroom.after hs')).mono ?_
  exact fun b s'' ⟨hs'', hdone'⟩ => ⟨hs'.trans hs'', hdone'⟩

/-! ## Interning -/

/-- A new term is interned if one more handle may be given out. -/
lemma Sound.succeeds_internTerm (h : s.Sound) (term : Term) :
    Succeeds s {term} ∅ (s.internTerm term) fun handle s' =>
      s'.terms.term? handle = some term := by
  intro hroom
  have hgains := h.internTerm term
  rcases h.terms.intern_cases term with ⟨handle, hterm, hintern⟩ |
    ⟨-, -, terms, -, hpush, hintern⟩ | ⟨hnew, hfull, -⟩
  · rw [QuadStore.internTerm, hintern] at hgains ⊢
    have hknown : s.known ∪ {term} = s.known :=
      Finset.union_eq_left.2 (Finset.singleton_subset_iff.2 (mem_known.2 ⟨handle, hterm⟩))
    exact ⟨⟨hgains.1, hknown.symm, rfl⟩, hgains.2⟩
  · rw [QuadStore.internTerm, hintern] at hgains ⊢
    refine ⟨⟨hgains.1, ?_, rfl⟩, hgains.2⟩
    rw [known, hpush, Array.toList_push, List.toFinset_append]
    rfl
  · -- there is a handle for one more term than there are now
    have hunknown : term ∉ s.known := fun hmem => by
      obtain ⟨handle, hterm⟩ := mem_known.1 hmem
      exact h.terms.handle?_eq_none_iff.1 hnew handle hterm
    have hlt := hroom.known_lt
    rw [Finset.card_union_of_disjoint (Finset.disjoint_singleton_right.2 hunknown),
      Finset.card_singleton, h.card_known] at hlt
    exact absurd hlt (Nat.not_lt.2 hfull)

lemma Sound.succeeds_internGraph (h : s.Sound) (graph : GraphName) :
    Succeeds s graph.terms ∅ (s.internGraph graph) fun handle s' =>
      s'.terms.graphName? handle = some graph := by
  cases graph with
  | defaultGraph => exact fun _ => ⟨Acquires.refl h, rfl⟩
  | named r =>
    intro hroom
    refine (h.succeeds_internTerm (.resource r) hroom).mono fun handle s' ⟨hs', hterm⟩ => ⟨hs', ?_⟩
    exact TermTable.graphName?_eq_named_iff.2 hterm

/-! ## Additions -/

/-- A new statement is added if there is a record for one more.  Without tombstones every record is
live or free. -/
lemma Sound.succeeds_insertHandles (h : s.Sound) {handles : PerPosition Nat} {q : Quad}
    (hq : QuadStore.quadOf? s.terms handles = some q) :
    Succeeds s ∅ {q} (s.insertHandles handles) fun _ _ => True := by
  intro hroom
  have hgains := h.insertHandles hq
  rcases h.statements.insert_cases (h.lt_chains hq) with ⟨id, -, hinsert⟩ |
    ⟨-, id, statements, hinsert, -, -, -, -, hzombies, -⟩ | ⟨hnew, hfree, hfull, -⟩
  · rw [QuadStore.insertHandles, hinsert] at hgains ⊢
    exact ⟨⟨hgains.1, (Finset.union_empty _).symm, rfl⟩, trivial⟩
  · rw [QuadStore.insertHandles, hinsert] at hgains ⊢
    exact ⟨⟨hgains.1, (Finset.union_empty _).symm, hzombies⟩, trivial⟩
  · have habsent : q ∉ s.contents := fun hmem => by
      obtain ⟨id, hid⟩ := (h.holds_iff hq).1 (mem_contents.1 hmem)
      exact hnew id hid
    have hle := hroom.contents_le
    have hsize := h.statements.size_records h.settled
    have hlive : s.statements.live = s.contents.card := h.size_eq
    rw [Finset.card_union_of_disjoint (Finset.disjoint_singleton_right.2 habsent),
      Finset.card_singleton] at hle
    rw [hroom.zombies_eq, hfree, hlive, Array.size_empty] at hsize
    omega

lemma Sound.succeeds_link (h : s.Sound) {subject predicate object : Nat} {r : Resource} {i : Iri}
    {t : Term} (hs : s.terms.term? subject = some (.resource r))
    (hp : s.terms.term? predicate = some (.iri i)) (ho : s.terms.term? object = some t)
    (graph : GraphName) :
    Succeeds s graph.terms {⟨r, i, t, graph⟩} (s.link subject predicate object graph)
      fun _ _ => True := by
  have hlink := (h.succeeds_internGraph graph).andThen fun handle s' hs' hgraph =>
    hs'.sound.succeeds_insertHandles (hs'.quadOf?_eq hs hp ho hgraph)
  rwa [Finset.union_empty, Finset.empty_union] at hlink

lemma Sound.succeeds_linkAll (h : s.Sound) {subject predicate object : Nat} {r : Resource}
    {i : Iri} {t : Term} (hs : s.terms.term? subject = some (.resource r))
    (hp : s.terms.term? predicate = some (.iri i)) (ho : s.terms.term? object = some t)
    (changed : Bool) (graphs : List GraphName) :
    Succeeds s (graphs.toFinset.biUnion GraphName.terms) (inGraphs r i t graphs)
      (s.linkAll subject predicate object changed graphs) fun _ _ => True := by
  induction graphs generalizing s changed with
  | nil => exact fun _ => ⟨Acquires.refl h, trivial⟩
  | cons graph graphs ih =>
    rw [List.toFinset_cons, Finset.biUnion_insert, inGraphs, List.map_cons, List.toFinset_cons,
      Finset.insert_eq]
    exact (h.succeeds_link hs hp ho graph).andThen fun added s' hs' _ =>
      ih hs'.sound (hs'.term?_mono hs) (hs'.term?_mono hp) (hs'.term?_mono ho) (changed || added)

theorem Sound.succeeds_insert (h : s.Sound) (q : Quad) :
    Succeeds s q.terms {q} (s.insert q) fun _ _ => True := by
  have hinsert := (h.succeeds_internTerm (.resource q.subject)).andThen fun hs s₁ h₁ hterm₁ =>
    (h₁.sound.succeeds_internTerm (.iri q.predicate)).andThen fun hp s₂ h₂ hterm₂ =>
    (h₂.sound.succeeds_internTerm q.object).andThen fun ho s₃ h₃ hterm₃ =>
    h₃.sound.succeeds_linkAll (h₃.term?_mono (h₂.term?_mono hterm₁)) (h₃.term?_mono hterm₂) hterm₃
      false [q.graph]
  have hgraph : [q.graph].toFinset.biUnion GraphName.terms = q.graph.terms :=
    Finset.singleton_biUnion
  have hquad : inGraphs q.subject q.predicate q.object [q.graph] = {q} := rfl
  rw [hgraph, hquad, Finset.empty_union, Finset.empty_union, Finset.empty_union] at hinsert
  exact hinsert

/-- **Adding quads succeeds where their terms and they themselves are afforded.** -/
theorem Sound.succeeds_extendFrom (h : s.Sound) (count : Nat) (qs : List Quad) :
    Succeeds s (termsOf qs.toFinset) qs.toFinset (s.extendFrom count qs) fun _ _ => True := by
  induction qs generalizing s count with
  | nil => exact fun _ => ⟨Acquires.refl h, trivial⟩
  | cons q qs ih =>
    rw [termsOf, List.toFinset_cons, Finset.biUnion_insert, Finset.insert_eq]
    exact (h.succeeds_insert q).andThen fun added s' hs' _ => ih hs'.sound _

end QuadStore

end QuadBase.Store
