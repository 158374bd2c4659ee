import QuadBase.Proofs.Store.Queries

/-!
# Putting quads in and taking them out

What the changes of a store do to its set of quads.  A change that may fail is described by what
holds when it fails and what holds when it answers (`Leads`); such descriptions compose along
`andThen` (`Leads.andThen`), as the changes do.

**Additions.**  `Gains s new s'` says that `s'` has the quads of `s` and the `new` ones.  A failing
addition leaves a sound store and tells which stock is full (`Refused`).

**Removals.**  They never fail.  Removing records one after the other takes out exactly their quads
(`Sound.removeIds`), although each removal may sweep.
-/

namespace QuadBase.Store.QuadStore

open QuadBase.Rdf

variable [Text.Hasher]

/-! ## Changes that may fail -/

section Leads

omit [Text.Hasher]

variable {α β : Type} {failed : StoreError → QuadStore → Prop} {done : α → QuadStore → Prop}

/-- `failed` holds of the failure of a change and the store it leaves, `done` of the answer and the
store it leaves. -/
def Leads (c : Change α) (failed : StoreError → QuadStore → Prop)
    (done : α → QuadStore → Prop) : Prop :=
  match c with
  | (.error e, s) => failed e s
  | (.ok a, s) => done a s

/-- **Descriptions compose as changes do.** -/
theorem Leads.andThen {c : Change α} {next : α → QuadStore → Change β}
    {done' : β → QuadStore → Prop} (h : Leads c failed done)
    (hnext : ∀ a s, done a s → Leads (next a s) failed done') :
    Leads (QuadStore.andThen c next) failed done' := by
  obtain ⟨answer, s⟩ := c
  cases answer with
  | error e => exact h
  | ok a => exact hnext a s h

lemma Leads.mono {c : Change α} {done' : α → QuadStore → Prop} (h : Leads c failed done)
    (hdone : ∀ a s, done a s → done' a s) : Leads c failed done' := by
  obtain ⟨answer, s⟩ := c
  cases answer with
  | error e => exact h
  | ok a => exact hdone a s h

end Leads

/-- A failed addition leaves a sound store, and some stock is full. -/
def Refused (e : StoreError) (s : QuadStore) : Prop :=
  (∃ stock limit, e = .capacityExceeded stock limit) ∧ s.Sound

/-! ## Gaining quads -/

/-- `s'` has the quads of `s` and the `new` ones, and all handles keep their terms. -/
structure Gains (s : QuadStore) (new : Finset Quad) (s' : QuadStore) : Prop where
  sound : s'.Sound
  term?_mono : ∀ {handle term}, s.terms.term? handle = some term →
    s'.terms.term? handle = some term
  contents_eq : s'.contents = s.contents ∪ new

variable {s s' s'' : QuadStore} {new more : Finset Quad}

lemma Gains.refl (h : s.Sound) : Gains s ∅ s :=
  ⟨h, id, (Finset.union_empty _).symm⟩

lemma Gains.trans (h : Gains s new s') (h' : Gains s' more s'') : Gains s (new ∪ more) s'' :=
  ⟨h'.sound, fun hterm => h'.term?_mono (h.term?_mono hterm), by
    rw [h'.contents_eq, h.contents_eq, Finset.union_assoc]⟩

/-- Handles keep their terms, so with that of a graph name they can still be a quad. -/
lemma Gains.quadOf?_eq (h : Gains s new s') {subject predicate object handle : Nat} {r : Resource}
    {i : Iri} {t : Term} {graph : GraphName} (hs : s.terms.term? subject = some (.resource r))
    (hp : s.terms.term? predicate = some (.iri i)) (ho : s.terms.term? object = some t)
    (hg : s'.terms.graphName? handle = some graph) :
    QuadStore.quadOf? s'.terms ⟨subject, predicate, object, handle⟩ = some ⟨r, i, t, graph⟩ :=
  quadOf?_eq_some_iff.2 ⟨h.term?_mono hs, h.term?_mono hp, h.term?_mono ho, hg⟩

/-! ## Interning -/

/-- **Interning a term gains nothing**, and gives the handle of the term. -/
theorem Sound.internTerm (h : s.Sound) (term : Term) : Leads (s.internTerm term) Refused
    fun handle s' => Gains s ∅ s' ∧ s'.terms.term? handle = some term := by
  -- whatever terms are added, the statements only get more chains
  have hgains : ∀ {terms : TermTable}, terms.Sound →
      (∀ {handle term}, s.terms.term? handle = some term → terms.term? handle = some term) →
      s.terms.size ≤ terms.size →
      Gains s ∅ ⟨s.config, terms, s.statements.reserve terms.size, s.namespaces⟩ := by
    intro terms hterms hmono hsize
    obtain ⟨hstatements, hchains⟩ := h.statements.reserve terms.size
    refine ⟨⟨hterms, hstatements, h.settled, ?_, ?_⟩, hmono, ?_⟩
    · rw [hchains, h.chains_size]
      exact Nat.max_eq_right hsize
    · intro id handles hid
      obtain ⟨q, hq⟩ := h.readable hid
      exact ⟨q, quadOf?_mono hmono hq⟩
    · ext q
      rw [Finset.union_empty, mem_contents, mem_contents]
      exact exists_congr fun id => Eq.congr_left (quad?_congr h.readable hmono rfl)
  rcases h.terms.intern_cases term with ⟨handle, hterm, hintern⟩ |
    ⟨-, hroom, terms, hterms, hpush, hintern⟩ | ⟨-, -, hintern⟩
  · rw [QuadStore.internTerm, hintern]
    exact ⟨hgains h.terms id (le_refl _), hterm⟩
  · rw [QuadStore.internTerm, hintern]
    have hterm? : ∀ handle, terms.term? handle =
        if handle = s.terms.size then some term else s.terms.term? handle := fun handle => by
      obtain ⟨list, slots⟩ := terms
      obtain rfl : list = s.terms.terms.push term := hpush
      exact TermTable.term?_push s.terms.slots
    refine ⟨hgains hterms ?_ ?_, ?_⟩
    · intro handle other hold
      rw [hterm?, if_neg (TermTable.lt_size_of_term? hold).ne, hold]
    · rw [TermTable.size, TermTable.size, hpush, Array.size_push]
      omega
    · rw [hterm?, if_pos rfl]
  · rw [QuadStore.internTerm, hintern]
    exact ⟨⟨_, _, rfl⟩, (hgains h.terms id (le_refl _)).sound⟩

theorem Sound.internGraph (h : s.Sound) (graph : GraphName) :
    Leads (s.internGraph graph) Refused
      fun handle s' => Gains s ∅ s' ∧ s'.terms.graphName? handle = some graph := by
  cases graph with
  | defaultGraph => exact ⟨Gains.refl h, rfl⟩
  | named r =>
    refine (h.internTerm (.resource r)).mono fun handle s' ⟨hgains, hterm⟩ => ⟨hgains, ?_⟩
    rwa [← hgains.sound.terms.graphHandle?_eq_some_iff, TermTable.graphHandle?,
      hgains.sound.terms.handle?_eq_some_iff]

/-! ## Additions -/

/-- The handles of a quad have chains. -/
lemma Sound.lt_chains (h : s.Sound) {handles : PerPosition Nat} {q : Quad}
    (hq : QuadStore.quadOf? s.terms handles = some q) (p : Position) :
    handles.get p < s.statements.chains.size := by
  rw [h.chains_size]
  obtain ⟨hs, hp, ho, hg⟩ := quadOf?_eq_some_iff.1 hq
  cases p with
  | subject => exact TermTable.lt_size_of_term? hs
  | predicate => exact TermTable.lt_size_of_term? hp
  | object => exact TermTable.lt_size_of_term? ho
  | graph =>
    change handles.graph < s.terms.size
    rw [TermTable.graphName?] at hg
    split at hg
    next hzero => rw [hzero]; exact Nat.succ_pos _
    next =>
      split at hg
      next r hr => exact TermTable.lt_size_of_term? hr
      next => cases hg

/-- A quad is held if some record has its handles. -/
lemma Sound.holds_iff (h : s.Sound) {handles : PerPosition Nat} {q : Quad}
    (hq : QuadStore.quadOf? s.terms handles = some q) :
    s.Holds q ↔ ∃ id, s.statements.terms? id = some handles := by
  refine exists_congr ?_
  intro id
  rw [Sound.quad?_eq_some_iff]
  constructor
  · rintro ⟨handles', hterms, hq'⟩
    rw [← handles?_eq_some_iff h.terms] at hq hq'
    rwa [Option.some.inj (hq.symm.trans hq')]
  · intro hterms
    exact ⟨handles, hterms, hq⟩

omit [Text.Hasher] in
/-- One more statement is one more quad. -/
lemma contents_withStatement {handles : PerPosition Nat} {q : Quad} {id : Nat}
    {statements : Statements} (hq : QuadStore.quadOf? s.terms handles = some q)
    (hid : s.statements.terms? id = none) (hterms : ∀ other, statements.terms? other =
      if other = id then some handles else s.statements.terms? other) :
    contents { s with statements } = s.contents ∪ {q} := by
  have hquad : ∀ other, quad? { s with statements } other =
      if other = id then some q else s.quad? other := by
    intro other
    rw [quad?, hterms]
    split
    · exact hq
    · rfl
  have hnone : s.quad? id = none := by rw [quad?, hid, Option.bind_none]
  ext other
  rw [Finset.mem_union, Finset.mem_singleton, mem_contents, mem_contents]
  constructor
  · rintro ⟨a, ha⟩
    rw [hquad] at ha
    split at ha
    next => exact Or.inr (Option.some.inj ha).symm
    next => exact Or.inl ⟨a, ha⟩
  · rintro (⟨a, ha⟩ | rfl)
    · have hne : a ≠ id := by
        rintro rfl
        rw [hnone] at ha
        cases ha
      exact ⟨a, by rw [hquad, if_neg hne, ha]⟩
    · exact ⟨id, by rw [hquad, if_pos rfl]⟩

/-- **Adding four handles gains their quad.**  The answer tells whether it is new. -/
theorem Sound.insertHandles (h : s.Sound) {handles : PerPosition Nat} {q : Quad}
    (hq : QuadStore.quadOf? s.terms handles = some q) :
    Leads (s.insertHandles handles) Refused
      fun added s' => Gains s {q} s' ∧ added = decide (q ∉ s.contents) := by
  have hholds := h.holds_iff hq
  rcases h.statements.insert_cases (h.lt_chains hq) with ⟨id, hid, hinsert⟩ |
    ⟨hnew, id, statements, hinsert, hsound, hid, hterms, hchains, hzombies, hlive⟩ |
    ⟨-, -, -, index, used, hsound, hinsert⟩
  · rw [QuadStore.insertHandles, hinsert]
    have hmem : q ∈ s.contents := mem_contents.2 (hholds.2 ⟨id, hid⟩)
    refine ⟨⟨h, fun hterm => hterm, ?_⟩, by simp [hmem]⟩
    exact (Finset.union_eq_left.2 (Finset.singleton_subset_iff.2 hmem)).symm
  · rw [QuadStore.insertHandles, hinsert]
    have hmem : q ∉ s.contents := fun hmem => by
      obtain ⟨other, hother⟩ := hholds.1 (mem_contents.1 hmem)
      exact hnew other hother
    refine ⟨⟨⟨h.terms, hsound, ?_, hchains.trans h.chains_size, ?_⟩,
      fun hterm => hterm, contents_withStatement hq hid hterms⟩, by simp [hmem]⟩
    · rw [Statements.Settled, hzombies, hlive]
      exact h.settled.imp_right Nat.lt_succ_of_lt
    · intro other found hother
      rw [hterms] at hother
      split at hother
      next => exact ⟨q, Option.some.inj hother ▸ hq⟩
      next => exact h.readable hother
  · rw [QuadStore.insertHandles, hinsert]
    exact ⟨⟨_, _, rfl⟩, h.terms, hsound, h.settled, h.chains_size, h.readable⟩

theorem Sound.link (h : s.Sound) {subject predicate object : Nat} {r : Resource} {i : Iri}
    {t : Term} (hs : s.terms.term? subject = some (.resource r))
    (hp : s.terms.term? predicate = some (.iri i)) (ho : s.terms.term? object = some t)
    (graph : GraphName) : Leads (s.link subject predicate object graph) Refused
      fun added s' => Gains s {⟨r, i, t, graph⟩} s' ∧
        added = decide ((⟨r, i, t, graph⟩ : Quad) ∉ s.contents) := by
  refine (h.internGraph graph).andThen ?_
  rintro handle s' ⟨hgains, hgraph⟩
  have hq := hgains.quadOf?_eq hs hp ho hgraph
  refine (hgains.sound.insertHandles hq).mono fun added s'' ⟨hadded, hanswer⟩ => ⟨?_, ?_⟩
  · simpa using hgains.trans hadded
  · rw [hanswer, hgains.contents_eq, Finset.union_empty]

omit [Text.Hasher] in
/-- The quads of a statement in several graphs. -/
def inGraphs (subject : Resource) (predicate : Iri) (object : Term) (graphs : List GraphName) :
    Finset Quad :=
  (graphs.map fun graph => (⟨subject, predicate, object, graph⟩ : Quad)).toFinset

theorem Sound.linkAll (h : s.Sound) {subject predicate object : Nat} {r : Resource} {i : Iri}
    {t : Term} (hs : s.terms.term? subject = some (.resource r))
    (hp : s.terms.term? predicate = some (.iri i)) (ho : s.terms.term? object = some t)
    (changed : Bool) (graphs : List GraphName) :
    Leads (s.linkAll subject predicate object changed graphs) Refused
      fun added s' => Gains s (inGraphs r i t graphs) s' ∧
        added = (changed || decide (¬ inGraphs r i t graphs ⊆ s.contents)) := by
  induction graphs generalizing s changed with
  | nil => exact ⟨Gains.refl h, by simp [inGraphs]⟩
  | cons graph graphs ih =>
    refine (h.link hs hp ho graph).andThen ?_
    rintro added s' ⟨hgains, hadded⟩
    have hrest := ih hgains.sound (hgains.term?_mono hs) (hgains.term?_mono hp)
      (hgains.term?_mono ho) (changed || added)
    have hcons : inGraphs r i t (graph :: graphs) =
        {⟨r, i, t, graph⟩} ∪ inGraphs r i t graphs := by
      rw [inGraphs, List.map_cons, List.toFinset_cons, Finset.insert_eq, inGraphs]
    refine hrest.mono fun answer s'' ⟨hmore, hanswer⟩ => ⟨hcons ▸ hgains.trans hmore, ?_⟩
    rw [hanswer, hadded, hgains.contents_eq, hcons, Bool.or_assoc]
    congr 1
    rw [Bool.eq_iff_iff, Bool.or_eq_true, decide_eq_true_eq, decide_eq_true_eq, decide_eq_true_eq,
      Finset.union_subset_iff, Finset.singleton_subset_iff]
    -- a quad that the first graph has brought in is one of the new ones already
    by_cases hmem : (⟨r, i, t, graph⟩ : Quad) ∈ s.contents
    · rw [Finset.union_eq_left.2 (Finset.singleton_subset_iff.2 hmem)]
      simp [hmem]
    · simp [hmem]

/-- **Adding a statement gains its quads**, and the answer tells whether one of them is new. -/
theorem Sound.add (h : s.Sound) (subject : Resource) (predicate : Iri) (object : Term)
    (graphs : List GraphName) : Leads (s.add subject predicate object graphs) Refused
      fun added s' =>
        Gains s (inGraphs subject predicate object
          (if graphs.isEmpty then [.defaultGraph] else graphs)) s' ∧
        added = decide (¬ inGraphs subject predicate object
          (if graphs.isEmpty then [.defaultGraph] else graphs) ⊆ s.contents) := by
  refine (h.internTerm (.resource subject)).andThen ?_
  rintro hs s₁ ⟨hg₁, hterm₁⟩
  refine (hg₁.sound.internTerm (.iri predicate)).andThen ?_
  rintro hp s₂ ⟨hg₂, hterm₂⟩
  refine (hg₂.sound.internTerm object).andThen ?_
  rintro ho s₃ ⟨hg₃, hterm₃⟩
  have hgains : Gains s ∅ s₃ := by simpa using (hg₁.trans hg₂).trans hg₃
  refine (hg₃.sound.linkAll (hg₃.term?_mono (hg₂.term?_mono hterm₁)) (hg₃.term?_mono hterm₂)
    hterm₃ false _).mono fun added s₄ ⟨hg₄, hadded⟩ => ⟨by simpa using hgains.trans hg₄, ?_⟩
  rw [hadded, hgains.contents_eq, Finset.union_empty, Bool.false_or]

theorem Sound.insert (h : s.Sound) (q : Quad) : Leads (s.insert q) Refused
    fun added s' => Gains s {q} s' ∧ added = decide (q ∉ s.contents) := by
  refine (h.add q.subject q.predicate q.object [q.graph]).mono ?_
  intro added s' hadded
  simpa [inGraphs] using hadded

/-- Adding quads one after the other counts each new one once. -/
theorem Sound.extendFrom (h : s.Sound) (count : Nat) (qs : List Quad) :
    Leads (s.extendFrom count qs) Refused fun total s' =>
      Gains s qs.toFinset s' ∧ total = count + (qs.toFinset \ s.contents).card := by
  induction qs generalizing s count with
  | nil => exact ⟨Gains.refl h, by simp⟩
  | cons q qs ih =>
    refine (h.insert q).andThen ?_
    rintro added s' ⟨hgains, hadded⟩
    have hcons : (q :: qs).toFinset = {q} ∪ qs.toFinset := by
      rw [List.toFinset_cons, Finset.insert_eq]
    refine (ih hgains.sound _).mono fun total s'' ⟨hmore, htotal⟩ =>
      ⟨hcons ▸ hgains.trans hmore, ?_⟩
    rw [htotal, hadded, hgains.contents_eq]
    by_cases hmem : q ∈ s.contents
    · have hold : s.contents ∪ {q} = s.contents :=
        Finset.union_eq_left.2 (Finset.singleton_subset_iff.2 hmem)
      rw [hold, List.toFinset_cons, Finset.insert_sdiff_of_mem _ hmem]
      simp [hmem]
    · have hsplit : (q :: qs).toFinset \ s.contents =
          (qs.toFinset \ (s.contents ∪ {q})).cons q (by simp) := by
        ext other
        simp only [List.toFinset_cons, Finset.mem_sdiff, Finset.mem_insert, Finset.mem_cons,
          Finset.mem_union, Finset.mem_singleton]
        by_cases heq : other = q
        · simp [heq, hmem]
        · simp [heq]
      rw [hsplit, Finset.card_cons]
      simp only [hmem, not_false_eq_true, decide_true, if_true]
      omega

/-! ## Removals -/

/-- **Removing a record takes out its quad** and no other. -/
theorem Sound.removeId (h : s.Sound) (id : Nat) :
    (s.removeId id).2.Sound ∧ (s.removeId id).1 = (s.quad? id).isSome ∧
      ∀ other, (s.removeId id).2.quad? other = if other = id then none else s.quad? other := by
  rcases h.statements.remove_cases id with ⟨hnone, hremove⟩ |
    ⟨hsome, statements, hremove, hsound, hsettled, hterms, hchains⟩
  · have hquad : s.quad? id = none := by rw [quad?, hnone]; rfl
    have hsame : s.removeId id = (false, s) := by rw [QuadStore.removeId, hremove]
    rw [hsame, hquad]
    refine ⟨h, rfl, ?_⟩
    intro other
    by_cases heq : other = id
    · rw [if_pos heq, heq, hquad]
    · rw [if_neg heq]
  · rw [QuadStore.removeId, hremove]
    refine ⟨⟨h.terms, hsound, hsettled, hchains.trans h.chains_size,
      ?_⟩, ?_, ?_⟩
    · intro other found hother
      rw [hterms] at hother
      split at hother
      next => cases hother
      next => exact h.readable hother
    · obtain ⟨handles, hhandles⟩ := Option.isSome_iff_exists.1 hsome
      exact (h.quad?_isSome_iff.2 (Statements.isLiveAt_of_terms? hhandles)).symm
    · intro other
      rw [quad?, hterms]
      split
      next => rfl
      next => rfl

/-- Removing records one after the other takes out the quads of all of them. -/
theorem Sound.removeIds (h : s.Sound) (changed : Bool) (ids : List Nat) :
    (s.removeIds changed ids).2.Sound ∧
      (s.removeIds changed ids).1 = (changed || ids.any fun id => (s.quad? id).isSome) ∧
      ∀ other, (s.removeIds changed ids).2.quad? other =
        if other ∈ ids then none else s.quad? other := by
  induction ids generalizing s changed with
  | nil => exact ⟨h, by simp [QuadStore.removeIds], fun other => by simp [QuadStore.removeIds]⟩
  | cons id ids ih =>
    obtain ⟨hsound, hanswer, hquads⟩ := h.removeId id
    obtain ⟨hsound', hanswer', hquads'⟩ := ih hsound ((s.removeId id).1 || changed)
    rw [QuadStore.removeIds]
    refine ⟨hsound', hanswer'.trans ?_, fun other => (hquads' other).trans ?_⟩
    · rw [hanswer, List.any_cons, Bool.eq_iff_iff]
      simp only [Bool.or_eq_true, List.any_eq_true, hquads]
      constructor
      · rintro ((hid | hchanged) | ⟨other, hother, hsome⟩)
        · exact Or.inr (Or.inl hid)
        · exact Or.inl hchanged
        · split at hsome
          next => cases hsome
          next => exact Or.inr (Or.inr ⟨other, hother, hsome⟩)
      · rintro (hchanged | hid | ⟨other, hother, hsome⟩)
        · exact Or.inl (Or.inr hchanged)
        · exact Or.inl (Or.inl hid)
        · by_cases heq : other = id
          · exact Or.inl (Or.inl (heq ▸ hsome))
          · exact Or.inr ⟨other, hother, by rw [if_neg heq]; exact hsome⟩
    · rw [hquads]
      by_cases heq : other = id
      · simp [heq]
      · simp [heq]

/-- **Dropping all statements leaves no quad.** -/
theorem Sound.clear (h : s.Sound) : s.clear.Sound ∧ s.clear.contents = ∅ := by
  have hsound : s.clear.Sound := by
    refine ⟨h.terms, h.statements.clear, Or.inl rfl, ?_, ?_⟩
    · exact Array.size_replicate.trans h.chains_size
    · intro id handles hid
      rw [Statements.terms?] at hid
      simp [QuadStore.clear, Statements.clear] at hid
  exact ⟨hsound, rfl⟩

/-- **Removing a pattern takes out the quads that it admits.**  The answer tells whether there is
one. -/
theorem Sound.remove (h : s.Sound) (pattern : Pattern) :
    (s.remove pattern).2.Sound ∧
      (s.remove pattern).2.contents = s.contents.filter (fun q => ¬ pattern.admits q = true) ∧
      (s.remove pattern).1 = decide (∃ q ∈ s.contents, pattern.admits q = true) := by
  rw [QuadStore.remove]
  split
  next hwild =>
    have hadmits := Pattern.admits_of_isWildcard hwild
    obtain ⟨hsound, hempty⟩ := h.clear
    refine ⟨hsound, ?_, ?_⟩
    · rw [hempty, Finset.filter_false_of_mem fun q _ hnot => hnot (hadmits q)]
    · rw [Bool.eq_iff_iff, decide_eq_true_eq, Bool.not_eq_true', ← Bool.not_eq_true, h.isEmpty_iff,
        ← Finset.not_nonempty_iff_eq_empty, not_not]
      exact exists_congr fun q => (and_iff_left (hadmits q)).symm
  next =>
    obtain ⟨hsound, hanswer, hquads⟩ := h.removeIds false (s.ids pattern)
    refine ⟨hsound, ?_, ?_⟩
    · ext q
      rw [Finset.mem_filter, mem_contents, mem_contents, Holds]
      simp only [hquads]
      constructor
      · rintro ⟨id, hid⟩
        split at hid
        next => cases hid
        next hnot =>
          exact ⟨⟨id, hid⟩, fun hadmits => hnot (h.mem_ids.2 ⟨q, hid, hadmits⟩)⟩
      · rintro ⟨⟨id, hid⟩, hnot⟩
        refine ⟨id, ?_⟩
        rw [if_neg, hid]
        intro hmem
        obtain ⟨other, hother, hadmits⟩ := h.mem_ids.1 hmem
        exact hnot (Option.some.inj (hid.symm.trans hother) ▸ hadmits)
    · rw [hanswer, Bool.false_or, Bool.eq_iff_iff, List.any_eq_true, decide_eq_true_eq]
      constructor
      · rintro ⟨id, hid, -⟩
        obtain ⟨q, hq, hadmits⟩ := h.mem_ids.1 hid
        exact ⟨q, mem_contents.2 ⟨id, hq⟩, hadmits⟩
      · rintro ⟨q, hmem, hadmits⟩
        obtain ⟨id, hq⟩ := mem_contents.1 hmem
        exact ⟨id, h.mem_ids.2 ⟨q, hq, hadmits⟩, by rw [hq]; rfl⟩

/-- **Removing a quad takes out just this quad.** -/
theorem Sound.removeQuad (h : s.Sound) (q : Quad) :
    (s.removeQuad q).2.Sound ∧ (s.removeQuad q).2.contents = s.contents.erase q ∧
      (s.removeQuad q).1 = decide (q ∈ s.contents) := by
  rw [QuadStore.removeQuad]
  cases hfind : s.find? q with
  | none =>
    have hnot : q ∉ s.contents := fun hmem => by
      obtain ⟨id, hid⟩ := mem_contents.1 hmem
      rw [h.find?_eq_some_iff.2 hid] at hfind
      cases hfind
    exact ⟨h, (Finset.erase_eq_of_notMem hnot).symm, by simp [hnot]⟩
  | some id =>
    have hid := h.find?_eq_some_iff.1 hfind
    obtain ⟨hsound, hanswer, hquads⟩ := h.removeId id
    refine ⟨hsound, ?_, ?_⟩
    · ext other
      rw [Finset.mem_erase, mem_contents, mem_contents, Holds]
      simp only [hquads]
      constructor
      · rintro ⟨a, ha⟩
        split at ha
        next => cases ha
        next hne =>
          exact ⟨fun heq => hne (h.quad?_injective (heq ▸ ha) hid), a, ha⟩
      · rintro ⟨hne, a, ha⟩
        refine ⟨a, ?_⟩
        rw [if_neg, ha]
        rintro rfl
        exact hne (Option.some.inj (ha.symm.trans hid))
    · rw [hanswer, hid]
      simp [mem_contents.2 ⟨id, hid⟩]

end QuadBase.Store.QuadStore
