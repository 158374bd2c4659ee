import QuadBase.Proofs.Store.Reachable

/-!
# Elementary steps

An operation on a store is made of few elementary steps: interning a term, adding the statement of
four handles of the right kinds, removing a record, dropping all statements, changing abbreviations.
`Occurs` collects the stores that such steps lead to, so it includes those that an operation passes
through in the middle, and those that a failing operation leaves.

* `Occurs.sound` — every store that occurs is sound.
* `Occurs.run` — operations are made of elementary steps.
* `reached_occurs` — **every reachable store occurs**, so what the elementary steps keep true holds
  of every reachable store.
* `Kept.edit` — edits leave the configuration and the abbreviations alone.
-/

namespace QuadBase.Store.QuadStore

open QuadBase.Rdf

variable [Text.Hasher]

/-- Stores that occur, also in the middle of operations. -/
inductive Occurs : QuadStore → Prop where
  | create (config : Config) : Occurs (create config)
  | internTerm {s : QuadStore} (h : Occurs s) (term : Term) : Occurs (s.internTerm term).2
  /-- The handles have terms that can be a quad together. -/
  | insertHandles {s : QuadStore} (h : Occurs s) {handles : PerPosition Nat} {q : Quad}
      (hq : quadOf? s.terms handles = some q) : Occurs (s.insertHandles handles).2
  | removeId {s : QuadStore} (h : Occurs s) (id : Nat) : Occurs (s.removeId id).2
  | clear {s : QuadStore} (h : Occurs s) : Occurs s.clear
  | withNamespaces {s : QuadStore} (h : Occurs s) (namespaces : Std.TreeMap String String) :
      Occurs { s with namespaces }

variable {s : QuadStore}

section Leads

omit [Text.Hasher]

variable {α : Type} {c : Change α} {P : QuadStore → Prop}

/-- What holds of the store that a change leaves may be added to its description. -/
lemma Leads.alongside {failed : StoreError → QuadStore → Prop} {done : α → QuadStore → Prop}
    (h : Leads c failed done) (hstore : P c.2) :
    Leads c (fun _ s => P s) fun a s => P s ∧ done a s := by
  obtain ⟨answer, s⟩ := c
  cases answer with
  | error e => exact hstore
  | ok a => exact ⟨hstore, h⟩

/-- What holds of the store that a change leaves may be added to what its answer tells. -/
lemma Leads.and_store {failed : StoreError → QuadStore → Prop} {done : α → QuadStore → Prop}
    (h : Leads c failed done) (hstore : P c.2) : Leads c failed fun a s => done a s ∧ P s := by
  obtain ⟨answer, s⟩ := c
  cases answer with
  | error e => exact h
  | ok a => exact ⟨h, hstore⟩

/-- A description tells what holds of the store that a change leaves in either case. -/
lemma Leads.store_of {failed : StoreError → QuadStore → Prop} {done : α → QuadStore → Prop}
    (h : Leads c failed done) (hfailed : ∀ e s, failed e s → P s) (hdone : ∀ a s, done a s → P s) :
    P c.2 := by
  obtain ⟨answer, s⟩ := c
  cases answer with
  | error e => exact hfailed e s h
  | ok a => exact hdone a s h

lemma Leads.store (h : Leads c (fun _ s => P s) fun _ s => P s) : P c.2 :=
  h.store_of (fun _ _ => id) fun _ _ => id

lemma leads_of_store (h : P c.2) : Leads c (fun _ s => P s) fun _ s => P s := by
  obtain ⟨answer, s⟩ := c
  cases answer with
  | error e => exact h
  | ok a => exact h

end Leads

namespace Occurs

/-! ## Soundness -/

/-- **Every store that occurs is sound.** -/
theorem sound (h : s.Occurs) : s.Sound := by
  induction h with
  | create config => exact create_sound config
  | internTerm _ term ih =>
    exact (ih.internTerm term).store_of (fun _ _ h => h.2) fun _ _ h => h.1.sound
  | insertHandles _ hq ih =>
    exact (ih.insertHandles hq).store_of (fun _ _ h => h.2) fun _ _ h => h.1.sound
  | removeId _ id ih => exact (ih.removeId id).1
  | clear _ ih => exact ih.clear.1
  | withNamespaces _ namespaces ih => exact ih.withNamespaces namespaces

/-! ## Additions -/

lemma leads_internTerm (h : s.Occurs) (term : Term) :
    Leads (s.internTerm term) (fun _ s' => s'.Occurs) fun handle s' =>
      s'.Occurs ∧ Gains s ∅ s' ∧ s'.terms.term? handle = some term :=
  (h.sound.internTerm term).alongside (h.internTerm term)

lemma leads_internGraph (h : s.Occurs) (graph : GraphName) :
    Leads (s.internGraph graph) (fun _ s' => s'.Occurs) fun handle s' =>
      s'.Occurs ∧ Gains s ∅ s' ∧ s'.terms.graphName? handle = some graph := by
  refine (h.sound.internGraph graph).alongside ?_
  cases graph with
  | defaultGraph => exact h
  | named r => exact h.internTerm (.resource r)

lemma leads_link (h : s.Occurs) {subject predicate object : Nat} {r : Resource} {i : Iri}
    {t : Term} (hs : s.terms.term? subject = some (.resource r))
    (hp : s.terms.term? predicate = some (.iri i)) (ho : s.terms.term? object = some t)
    (graph : GraphName) : Leads (s.link subject predicate object graph) (fun _ s' => s'.Occurs)
      fun _ s' => s'.Occurs ∧ Gains s {⟨r, i, t, graph⟩} s' := by
  have hgains := (h.sound.link hs hp ho graph).mono fun _ _ hdone => hdone.1
  refine hgains.alongside ((h.leads_internGraph graph).andThen ?_).store
  rintro handle s' ⟨hoccurs, hmore, hgraph⟩
  exact leads_of_store (hoccurs.insertHandles (hmore.quadOf?_eq hs hp ho hgraph))

lemma linkAll (h : s.Occurs) {subject predicate object : Nat} {r : Resource} {i : Iri}
    {t : Term} (hs : s.terms.term? subject = some (.resource r))
    (hp : s.terms.term? predicate = some (.iri i)) (ho : s.terms.term? object = some t)
    (changed : Bool) (graphs : List GraphName) :
    (s.linkAll subject predicate object changed graphs).2.Occurs := by
  induction graphs generalizing s changed with
  | nil => exact h
  | cons graph graphs ih =>
    refine ((h.leads_link hs hp ho graph).andThen ?_).store
    rintro added s' ⟨hoccurs, hgains⟩
    exact leads_of_store (ih hoccurs (hgains.term?_mono hs) (hgains.term?_mono hp)
      (hgains.term?_mono ho) (changed || added))

theorem add (h : s.Occurs) (subject : Resource) (predicate : Iri) (object : Term)
    (graphs : List GraphName) : (s.add subject predicate object graphs).2.Occurs := by
  refine ((h.leads_internTerm (.resource subject)).andThen ?_).store
  rintro hs s₁ ⟨h₁, hg₁, hterm₁⟩
  refine (h₁.leads_internTerm (.iri predicate)).andThen ?_
  rintro hp s₂ ⟨h₂, hg₂, hterm₂⟩
  refine (h₂.leads_internTerm object).andThen ?_
  rintro ho s₃ ⟨h₃, hg₃, hterm₃⟩
  exact leads_of_store (h₃.linkAll (hg₃.term?_mono (hg₂.term?_mono hterm₁))
    (hg₃.term?_mono hterm₂) hterm₃ false _)

lemma insert (h : s.Occurs) (q : Quad) : (s.insert q).2.Occurs :=
  h.add q.subject q.predicate q.object [q.graph]

theorem extendFrom (h : s.Occurs) (count : Nat) (qs : List Quad) :
    (s.extendFrom count qs).2.Occurs := by
  induction qs generalizing s count with
  | nil => exact h
  | cons q qs ih =>
    refine ((leads_of_store (h.insert q)).andThen ?_).store
    exact fun added s' hoccurs => leads_of_store (ih hoccurs _)

/-! ## Removals -/

theorem removeIds (h : s.Occurs) (changed : Bool) (ids : List Nat) :
    (s.removeIds changed ids).2.Occurs := by
  induction ids generalizing s changed with
  | nil => exact h
  | cons id ids ih => exact ih (h.removeId id) _

theorem remove (h : s.Occurs) (pattern : Pattern) : (s.remove pattern).2.Occurs := by
  rw [QuadStore.remove]
  split
  · exact h.clear
  · exact h.removeIds false _

theorem removeQuad (h : s.Occurs) (q : Quad) : (s.removeQuad q).2.Occurs := by
  rw [QuadStore.removeQuad]
  cases s.find? q with
  | none => exact h
  | some id => exact h.removeId id

/-! ## Operations -/

theorem edit (h : s.Occurs) (e : Edit) : (e.run s).2.Occurs := by
  have hreply : ∀ {α : Type} {c : Change α} {reply : α → Reply}, c.2.Occurs →
      (andThen c fun a s => (.ok (reply a), s)).2.Occurs := fun hc =>
    ((leads_of_store hc).andThen fun _ _ hs => leads_of_store hs).store
  cases e with
  | add subject predicate object graphs => exact hreply (h.add subject predicate object graphs)
  | insert q => exact hreply (h.insert q)
  | extend qs => exact hreply (h.extendFrom 0 qs)
  | remove pattern => exact h.remove pattern
  | removeQuad q => exact h.removeQuad q
  | clear => exact h.clear

lemma move {c : Cursor} (h : c.store.Occurs) (m : Move) : (c.move m).store.Occurs := by
  cases m with
  | next => exact h
  | remove =>
    obtain ⟨s, walk, current⟩ := c
    cases current with
    | none => exact h
    | some id => exact h.removeId id

lemma foldl_move {c : Cursor} (h : c.store.Occurs) (moves : List Move) :
    (moves.foldl Cursor.move c).store.Occurs := by
  induction moves generalizing c with
  | nil => exact h
  | cons m moves ih => exact ih (h.move m)

/-- The copy that a filter makes starts from an empty store. -/
lemma filter (s : QuadStore) (pattern : Pattern) : (s.filter pattern).2.Occurs :=
  ((leads_of_store ((create s.config).extendFrom 0 (s.quads pattern))).andThen fun _ _ hcopy =>
    leads_of_store (hcopy.withNamespaces s.namespaces)).store

/-- **Operations are made of elementary steps.** -/
theorem run (h : s.Occurs) (operation : Operation) : (operation.run s).Occurs := by
  cases operation with
  | edit e => exact h.edit e
  | walk pattern moves =>
    have hcursor : (Cursor.create s pattern).store.Occurs := h
    exact hcursor.foldl_move moves
  | filter pattern =>
    have hcopy := filter s pattern
    rw [Operation.run]
    split
    next copy heq => rwa [heq] at hcopy
    next => exact h
  | setNamespace abbreviation space => exact h.withNamespaces _
  | eraseNamespace abbreviation => exact h.withNamespaces _

end Occurs

/-- **Every reachable store occurs.** -/
theorem reached_occurs (config : Config) (operations : List Operation) :
    (reached config operations).Occurs := by
  have hfrom : ∀ {s : QuadStore}, s.Occurs → (operations.foldl Operation.run s).Occurs := by
    induction operations with
    | nil => exact id
    | cons operation operations ih => exact fun h => ih (h.run operation)
  exact hfrom (.create config)

/-! ## What edits leave alone -/

section Kept

variable {s' s'' : QuadStore} {α β : Type}

omit [Text.Hasher] in
/-- The configuration and the abbreviations are the same. -/
structure Kept (s s' : QuadStore) : Prop where
  config_eq : s'.config = s.config
  namespaces_eq : s'.namespaces = s.namespaces

namespace Kept

omit [Text.Hasher] in
lemma refl (s : QuadStore) : Kept s s := ⟨rfl, rfl⟩

omit [Text.Hasher] in
lemma trans (h : Kept s s') (h' : Kept s' s'') : Kept s s'' :=
  ⟨h'.config_eq.trans h.config_eq, h'.namespaces_eq.trans h.namespaces_eq⟩

omit [Text.Hasher] in
lemma andThen {c : Change α} {next : α → QuadStore → Change β} (hc : Kept s c.2)
    (hnext : ∀ a s', Kept s' (next a s').2) : Kept s (QuadStore.andThen c next).2 := by
  obtain ⟨answer, s'⟩ := c
  cases answer with
  | error e => exact hc
  | ok a => exact hc.trans (hnext a s')

lemma internTerm (s : QuadStore) (term : Term) : Kept s (s.internTerm term).2 := ⟨rfl, rfl⟩

lemma removeId (s : QuadStore) (id : Nat) : Kept s (s.removeId id).2 := ⟨rfl, rfl⟩

lemma link (s : QuadStore) (subject predicate object : Nat) (graph : GraphName) :
    Kept s (s.link subject predicate object graph).2 := by
  refine Kept.andThen ?_ fun _ _ => ⟨rfl, rfl⟩
  cases graph with
  | defaultGraph => exact refl s
  | named r => exact internTerm s (.resource r)

lemma linkAll (s : QuadStore) (subject predicate object : Nat) (changed : Bool)
    (graphs : List GraphName) : Kept s (s.linkAll subject predicate object changed graphs).2 := by
  induction graphs generalizing s changed with
  | nil => exact refl s
  | cons graph graphs ih =>
    exact (link s subject predicate object graph).andThen fun added s' => ih s' (changed || added)

lemma add (s : QuadStore) (subject : Resource) (predicate : Iri) (object : Term)
    (graphs : List GraphName) : Kept s (s.add subject predicate object graphs).2 :=
  (internTerm s _).andThen fun _ s₁ => (internTerm s₁ _).andThen fun _ s₂ =>
    (internTerm s₂ _).andThen fun _ s₃ => linkAll s₃ _ _ _ _ _

lemma extendFrom (s : QuadStore) (count : Nat) (qs : List Quad) :
    Kept s (s.extendFrom count qs).2 := by
  induction qs generalizing s count with
  | nil => exact refl s
  | cons q qs ih => exact (add s _ _ _ _).andThen fun _ s' => ih s' _

lemma removeIds (s : QuadStore) (changed : Bool) (ids : List Nat) :
    Kept s (s.removeIds changed ids).2 := by
  induction ids generalizing s changed with
  | nil => exact refl s
  | cons id ids ih => exact (removeId s id).trans (ih _ _)

/-- **Edits change quads and nothing else.** -/
theorem edit (s : QuadStore) (e : Edit) : Kept s (e.run s).2 := by
  cases e with
  | add subject predicate object graphs => exact (add s _ _ _ _).andThen fun _ s' => refl s'
  | insert q => exact (add s _ _ _ _).andThen fun _ s' => refl s'
  | extend qs => exact (extendFrom s 0 qs).andThen fun _ s' => refl s'
  | remove pattern =>
    rw [Edit.run, QuadStore.remove]
    split
    · exact ⟨rfl, rfl⟩
    · exact removeIds s false _
  | removeQuad q =>
    rw [Edit.run, QuadStore.removeQuad]
    cases s.find? q with
    | none => exact refl s
    | some id => exact removeId s id
  | clear => exact ⟨rfl, rfl⟩

lemma cursorRemove (c : Cursor) : Kept c.store c.remove.2.store := by
  obtain ⟨s, walk, current⟩ := c
  cases current with
  | none => exact refl s
  | some id => exact removeId s id

end Kept

end Kept

end QuadBase.Store.QuadStore
