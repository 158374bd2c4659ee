import QuadBase.Proofs.Store.CheckedQueries
import QuadBase.Proofs.Tables

/-!
# Stores, with every access checked

What the operations of a store do, with a `Mishap` where a handle, a record or a slot is not there,
where a counter falls below zero or is no machine word any more, and where a quad has a component of
the wrong kind.  **No operation on a reachable store has a mishap**, and neither has any question or
any move of a cursor.

One term may be used in all four places of quads, so the kinds of the components cannot be read off
the handles.  That they are right is an invariant of the live records, and it goes back to what
terms an addition takes in which place.

* `Occurs.fit` — every store that occurs, also in the middle of an operation, is fit.
* `Occurs.checkedExtendFrom_eq`, `Occurs.checkedRemove_eq` — additions and removals.
* `Cursor.Fit.checkedMove_eq` — a move of a cursor; the cursor stays fit.
* `Flawless` — nothing that can be done with a store has a mishap.
* `reached_flawless` — **reachable stores are flawless, and their histories went without mishaps.**
-/

namespace QuadBase.Store

open QuadBase.Index QuadBase.Rdf QuadStore

variable [Text.Hasher]

/-! ## Stores that occur -/

omit [Text.Hasher] in
lemma Statements.bounded_of_empty {s : Statements} (h : s.records = #[]) : s.Bounded := by
  constructor
  · rw [h]
    exact Nat.zero_le _
  · intro p id next hnext
    rw [h] at hnext
    cases hnext

namespace QuadStore

variable {s : QuadStore}

/-- **The numbers of a store stay in bounds**, whatever happens to it. -/
theorem Occurs.bounded (h : s.Occurs) : s.statements.Bounded := by
  induction h with
  | create config => exact Statements.bounded_of_empty rfl
  | internTerm _ term ih => exact ⟨ih.size_le, ih.links⟩
  | insertHandles h hq ih =>
    exact (h.sound.statements.checkedInsert_eq ih h.isPowerOfTwo.2 (h.sound.lt_chains hq)).2
  | @removeId s h id ih =>
    by_cases hid : id < s.statements.records.size
    · exact (h.sound.statements.checkedRemove_eq ih h.isPowerOfTwo.2 hid).2
    · rcases h.sound.statements.remove_cases id with ⟨-, hremove⟩ | ⟨hsome, -⟩
      · change (s.statements.remove id).2.Bounded
        rwa [hremove]
      · obtain ⟨handles, hhandles⟩ := Option.isSome_iff_exists.1 hsome
        exact absurd (Statements.lt_size_of_isLiveAt (Statements.isLiveAt_of_terms? hhandles)) hid
  | clear _ ih => exact Statements.bounded_of_empty rfl
  | withNamespaces _ _ ih => exact ih

lemma Occurs.fit (h : s.Occurs) : s.Fit :=
  ⟨h.sound, h.bounded, h.isPowerOfTwo.1, h.isPowerOfTwo.2⟩

/-! ## Additions -/

/-- Goes on with the value of a successful change. -/
def checkedThen {α β : Type} (c : Change α) (next : α → QuadStore → Checked (Change β)) :
    Checked (Change β) :=
  match c with
  | (.error e, s) => .ok (.error e, s)
  | (.ok a, s) => next a s

section Additions

variable (s)

def checkedInternTerm (term : Term) : Checked (Change Nat) := do
  let (handle, terms) ← s.terms.checkedIntern term
  return (handle, { s with terms, statements := s.statements.reserve terms.size })

def checkedInternGraph : GraphName → Checked (Change Nat)
  | .defaultGraph => .ok (.ok TermTable.defaultGraph, s)
  | .named r => s.checkedInternTerm (.resource r)

def checkedInsertHandles (handles : PerPosition Nat) : Checked (Change Bool) := do
  let (added, statements) ← s.statements.checkedInsert handles
  return (added, { s with statements })

def checkedLink (subject predicate object : Nat) (graph : GraphName) : Checked (Change Bool) := do
  checkedThen (← s.checkedInternGraph graph) fun graph s =>
    s.checkedInsertHandles ⟨subject, predicate, object, graph⟩

def checkedLinkAll (s : QuadStore) (subject predicate object : Nat) (changed : Bool) :
    List GraphName → Checked (Change Bool)
  | [] => .ok (.ok changed, s)
  | graph :: graphs => do
    checkedThen (← s.checkedLink subject predicate object graph) fun added s =>
      s.checkedLinkAll subject predicate object (changed || added) graphs

def checkedAdd (subject : Resource) (predicate : Iri) (object : Term) (graphs : List GraphName) :
    Checked (Change Bool) := do
  checkedThen (← s.checkedInternTerm (.resource subject)) fun subject s => do
    checkedThen (← s.checkedInternTerm (.iri predicate)) fun predicate s => do
      checkedThen (← s.checkedInternTerm object) fun object s =>
        s.checkedLinkAll subject predicate object false
          (if graphs.isEmpty then [.defaultGraph] else graphs)

def checkedInsert (q : Quad) : Checked (Change Bool) :=
  s.checkedAdd q.subject q.predicate q.object [q.graph]

def checkedExtendFrom (s : QuadStore) (count : Nat) : List Quad → Checked (Change Nat)
  | [] => .ok (.ok count, s)
  | q :: qs => do
    checkedThen (← s.checkedInsert q) fun added s =>
      s.checkedExtendFrom (if added then count + 1 else count) qs

end Additions

omit [Text.Hasher] in
/-- A change goes on without a mishap if it does so from every store that the first part can
leave. -/
lemma checkedThen_eq {α β : Type} {c : Change α} {failed : StoreError → QuadStore → Prop}
    {done : α → QuadStore → Prop} {checkedNext : α → QuadStore → Checked (Change β)}
    {next : α → QuadStore → Change β} (h : Leads c failed done)
    (hnext : ∀ a s, done a s → checkedNext a s = .ok (next a s)) :
    checkedThen c checkedNext = .ok (andThen c next) := by
  obtain ⟨answer, s⟩ := c
  cases answer with
  | error e => rfl
  | ok a => exact hnext a s h

namespace Occurs

lemma checkedInternTerm_eq (h : s.Occurs) (term : Term) :
    s.checkedInternTerm term = .ok (s.internTerm term) := by
  rw [checkedInternTerm, h.sound.terms.checkedIntern_eq h.fit.slots_size]
  rfl

lemma checkedInternGraph_eq (h : s.Occurs) (graph : GraphName) :
    s.checkedInternGraph graph = .ok (s.internGraph graph) := by
  cases graph with
  | defaultGraph => rfl
  | named r => exact h.checkedInternTerm_eq (.resource r)

/-- Handles that can be a quad together are handles that there are. -/
lemma checkedInsertHandles_eq (h : s.Occurs) {handles : PerPosition Nat} {q : Quad}
    (hq : QuadStore.quadOf? s.terms handles = some q) :
    s.checkedInsertHandles handles = .ok (s.insertHandles handles) := by
  rw [checkedInsertHandles,
    (h.sound.statements.checkedInsert_eq h.bounded h.fit.index_size (h.sound.lt_chains hq)).1]
  rfl

section Handles

variable {subject predicate object : Nat} {r : Resource} {i : Iri} {t : Term}

lemma checkedLink_eq (h : s.Occurs) (hs : s.terms.term? subject = some (.resource r))
    (hp : s.terms.term? predicate = some (.iri i)) (ho : s.terms.term? object = some t)
    (graph : GraphName) : s.checkedLink subject predicate object graph =
      .ok (s.link subject predicate object graph) := by
  rw [checkedLink, h.checkedInternGraph_eq, ok_bind]
  refine checkedThen_eq (h.leads_internGraph graph) ?_
  rintro handle s' ⟨hoccurs, hmore, hgraph⟩
  exact hoccurs.checkedInsertHandles_eq (hmore.quadOf?_eq hs hp ho hgraph)

lemma checkedLinkAll_eq (h : s.Occurs) (hs : s.terms.term? subject = some (.resource r))
    (hp : s.terms.term? predicate = some (.iri i)) (ho : s.terms.term? object = some t)
    (changed : Bool) (graphs : List GraphName) :
    s.checkedLinkAll subject predicate object changed graphs =
      .ok (s.linkAll subject predicate object changed graphs) := by
  induction graphs generalizing s changed with
  | nil => rfl
  | cons graph graphs ih =>
    rw [checkedLinkAll, h.checkedLink_eq hs hp ho, ok_bind]
    refine checkedThen_eq (h.leads_link hs hp ho graph) ?_
    rintro added s' ⟨hoccurs, hgains⟩
    exact ih hoccurs (hgains.term?_mono hs) (hgains.term?_mono hp) (hgains.term?_mono ho) _

end Handles

theorem checkedAdd_eq (h : s.Occurs) (subject : Resource) (predicate : Iri) (object : Term)
    (graphs : List GraphName) : s.checkedAdd subject predicate object graphs =
      .ok (s.add subject predicate object graphs) := by
  rw [checkedAdd, h.checkedInternTerm_eq, ok_bind]
  refine checkedThen_eq (h.leads_internTerm (.resource subject)) ?_
  rintro hs s₁ ⟨h₁, hg₁, hterm₁⟩
  rw [h₁.checkedInternTerm_eq, ok_bind]
  refine checkedThen_eq (h₁.leads_internTerm (.iri predicate)) ?_
  rintro hp s₂ ⟨h₂, hg₂, hterm₂⟩
  rw [h₂.checkedInternTerm_eq, ok_bind]
  refine checkedThen_eq (h₂.leads_internTerm object) ?_
  rintro ho s₃ ⟨h₃, hg₃, hterm₃⟩
  exact h₃.checkedLinkAll_eq (hg₃.term?_mono (hg₂.term?_mono hterm₁)) (hg₃.term?_mono hterm₂)
    hterm₃ false _

lemma checkedInsert_eq (h : s.Occurs) (q : Quad) : s.checkedInsert q = .ok (s.insert q) :=
  h.checkedAdd_eq q.subject q.predicate q.object [q.graph]

/-- **Additions have no mishap**, also where they fail for lack of numbers. -/
theorem checkedExtendFrom_eq (h : s.Occurs) (count : Nat) (qs : List Quad) :
    s.checkedExtendFrom count qs = .ok (s.extendFrom count qs) := by
  induction qs generalizing s count with
  | nil => rfl
  | cons q qs ih =>
    rw [checkedExtendFrom, h.checkedInsert_eq, ok_bind]
    exact checkedThen_eq (leads_of_store (h.insert q)) fun _ _ hoccurs => ih hoccurs _

end Occurs

/-! ## Removals -/

section Removals

variable (s)

def checkedRemoveId (id : Nat) : Checked (Bool × QuadStore) := do
  let (removed, statements) ← s.statements.checkedRemove id
  return (removed, { s with statements })

def checkedRemoveIds (s : QuadStore) (changed : Bool) :
    List Nat → Checked (Bool × QuadStore)
  | [] => .ok (changed, s)
  | id :: rest => do
    let (removed, s) ← s.checkedRemoveId id
    s.checkedRemoveIds (removed || changed) rest

def checkedRemove (p : Pattern) : Checked (Bool × QuadStore) := do
  if p.isWildcard then return (!s.isEmpty, s.clear)
  else s.checkedRemoveIds false (← s.checkedIds p)

def checkedRemoveQuad (q : Quad) : Checked (Bool × QuadStore) := do
  match ← s.checkedFind? q with
  | some id => s.checkedRemoveId id
  | none => return (false, s)

end Removals

lemma Sound.size_records_removeId (h : s.Sound) (id : Nat) :
    (s.removeId id).2.statements.records.size = s.statements.records.size :=
  (h.statements.remove_spares id).size_eq

lemma Sound.size_chains_removeId (h : s.Sound) (id : Nat) :
    (s.removeId id).2.statements.chains.size = s.statements.chains.size :=
  (h.removeId id).1.chains_size.trans h.chains_size.symm

namespace Occurs

lemma checkedRemoveId_eq (h : s.Occurs) {id : Nat} (hid : id < s.statements.records.size) :
    s.checkedRemoveId id = .ok (s.removeId id) := by
  rw [checkedRemoveId, (h.sound.statements.checkedRemove_eq h.bounded h.fit.index_size hid).1]
  rfl

/-- A removal gives no record up, so those still to be removed are there. -/
lemma checkedRemoveIds_eq (h : s.Occurs) (changed : Bool) {ids : List Nat}
    (hids : ∀ id ∈ ids, id < s.statements.records.size) :
    s.checkedRemoveIds changed ids = .ok (s.removeIds changed ids) := by
  induction ids generalizing s changed with
  | nil => rfl
  | cons id ids ih =>
    rw [checkedRemoveIds, h.checkedRemoveId_eq (hids id List.mem_cons_self), ok_bind]
    refine ih (h.removeId id) _ fun other hother => ?_
    rw [h.sound.size_records_removeId]
    exact hids other (List.mem_cons_of_mem id hother)

/-- **Removals have no mishap.** -/
theorem checkedRemove_eq (h : s.Occurs) (p : Pattern) : s.checkedRemove p = .ok (s.remove p) := by
  rw [checkedRemove, QuadStore.remove]
  split
  next => rfl
  next =>
    rw [h.fit.checkedIds_eq, ok_bind]
    exact h.checkedRemoveIds_eq false fun id hid =>
      Statements.lt_size_of_isLiveAt (h.fit.isLiveAt_of_mem_ids p hid)

lemma checkedRemoveQuad_eq (h : s.Occurs) (q : Quad) :
    s.checkedRemoveQuad q = .ok (s.removeQuad q) := by
  rw [checkedRemoveQuad, h.fit.checkedFind?_eq, ok_bind, QuadStore.removeQuad]
  cases hfind : s.find? q with
  | none => rfl
  | some id =>
    have hquad := h.sound.find?_eq_some_iff.1 hfind
    exact h.checkedRemoveId_eq (Statements.lt_size_of_isLiveAt
      (h.sound.quad?_isSome_iff.1 (hquad ▸ rfl)))

end Occurs

/-- The copy that a filter makes. -/
def checkedFilter (s : QuadStore) (p : Pattern) : Checked (Change Unit) := do
  let copied ← (create s.config).checkedExtendFrom 0 (← s.checkedQuads p)
  return andThen copied fun _ copy => (.ok (), { copy with namespaces := s.namespaces })

lemma Occurs.checkedFilter_eq (h : s.Occurs) (p : Pattern) :
    s.checkedFilter p = .ok (s.filter p) := by
  rw [checkedFilter, h.fit.checkedQuads_eq, ok_bind,
    (Occurs.create s.config).checkedExtendFrom_eq]
  rfl

end QuadStore

/-! ## Cursors -/

namespace Cursor

def checkedCreate (s : QuadStore) (p : Pattern) : Checked Cursor := do
  return ⟨s, Walk.create (← Leg.checkedResolve p s.terms), none⟩

def checkedNext (c : Cursor) : Checked (Option Quad × Cursor) := do
  match ← c.walk.checkedAdvance c.store.statements with
  | (none, walk) => return (none, ⟨c.store, walk, none⟩)
  | (some id, walk) =>
    let q ← c.store.checkedQuad id
    return (some q, ⟨c.store, walk, some id⟩)

def checkedRemove (c : Cursor) : Checked (Bool × Cursor) := do
  match c.current with
  | none => return (false, ⟨c.store, c.walk, none⟩)
  | some id =>
    let (removed, store) ← c.store.checkedRemoveId id
    return (removed, ⟨store, c.walk, none⟩)

def checkedMove (c : Cursor) : Move → Checked (MoveReply × Cursor)
  | .next => do
    let (q, c) ← c.checkedNext
    return (.quad q, c)
  | .remove => do
    let (done, c) ← c.checkedRemove
    return (.removed done, c)

/-- The replies to all moves, and the cursor at the end. -/
def checkedMoves (c : Cursor) : List Move → Checked (List MoveReply × Cursor)
  | [] => .ok ([], c)
  | m :: moves => do
    let (reply, c) ← c.checkedMove m
    let (replies, c) ← c.checkedMoves moves
    return (reply :: replies, c)

/-- What it takes for a cursor to be moved without a mishap. -/
structure Fit (c : Cursor) : Prop where
  occurs : c.store.Occurs
  within : Walk.Within c.store.statements c.walk
  current : ∀ id ∈ c.current, id < c.store.statements.records.size

variable {c : Cursor}

lemma create_fit {s : QuadStore} (h : s.Occurs) (p : Pattern) : (create s p).Fit :=
  ⟨h, h.fit.within_create p, fun _ hid => by cases hid⟩

lemma Fit.checkedNext_eq (h : c.Fit) : c.checkedNext = .ok c.next ∧ c.next.2.Fit := by
  obtain ⟨s, w, current⟩ := c
  obtain ⟨hadvance, hwithin, hlive⟩ :=
    h.within.checkedAdvance_eq h.occurs.sound.statements h.occurs.bounded
  refine ⟨?_, h.occurs, hwithin, fun id hid => Statements.lt_size_of_isLiveAt (hlive id hid)⟩
  rw [checkedNext, hadvance, ok_bind, next]
  dsimp only at hlive ⊢
  cases hanswer : w.advance s.statements with
  | mk answer w' =>
    cases answer with
    | none => rfl
    | some id =>
      obtain ⟨q, hq, hchecked⟩ := h.occurs.sound.checkedQuad_eq (hlive id (hanswer ▸ rfl))
      dsimp only at hq hchecked ⊢
      rw [hchecked, ok_bind, Option.bind_some, hq]
      rfl

/-- A removal leaves the walk within the records. -/
lemma Fit.checkedRemove_eq (h : c.Fit) : c.checkedRemove = .ok c.remove ∧ c.remove.2.Fit := by
  obtain ⟨s, w, current⟩ := c
  cases current with
  | none => exact ⟨rfl, h.occurs, h.within, h.current⟩
  | some id =>
    have hsound := h.occurs.sound
    have hwithin :=
      h.within.congr (hsound.size_records_removeId id) (hsound.size_chains_removeId id)
    refine ⟨?_, h.occurs.removeId id, hwithin, fun _ hid => by cases hid⟩
    rw [checkedRemove]
    dsimp only
    rw [h.occurs.checkedRemoveId_eq (h.current id rfl)]
    rfl

/-- **A move has no mishap**, and the cursor stays fit. -/
theorem Fit.checkedMove_eq (h : c.Fit) (m : Move) :
    c.checkedMove m = .ok (c.reply m, c.move m) ∧ (c.move m).Fit := by
  cases m with
  | next =>
    obtain ⟨hchecked, hfit⟩ := h.checkedNext_eq
    rw [checkedMove, hchecked]
    exact ⟨rfl, hfit⟩
  | remove =>
    obtain ⟨hchecked, hfit⟩ := h.checkedRemove_eq
    rw [checkedMove, hchecked]
    exact ⟨rfl, hfit⟩

theorem Fit.checkedMoves_eq (h : c.Fit) (moves : List Move) :
    c.checkedMoves moves = .ok (c.replies moves, moves.foldl move c) := by
  induction moves generalizing c with
  | nil => rfl
  | cons m moves ih =>
    obtain ⟨hchecked, hfit⟩ := h.checkedMove_eq m
    rw [checkedMoves, hchecked, ok_bind]
    dsimp only
    rw [ih hfit]
    rfl

end Cursor

/-! ## Histories -/

def Edit.checkedRun (s : QuadStore) : Edit → Checked (Change Reply)
  | .add subject predicate object graphs => do
    let c ← s.checkedAdd subject predicate object graphs
    return andThen c fun changed s => (.ok (.flag changed), s)
  | .insert q => do
    let c ← s.checkedInsert q
    return andThen c fun changed s => (.ok (.flag changed), s)
  | .extend qs => do
    let c ← s.checkedExtendFrom 0 qs
    return andThen c fun count s => (.ok (.number count), s)
  | .remove pattern => do
    let (changed, s) ← s.checkedRemove pattern
    return (.ok (.flag changed), s)
  | .removeQuad q => do
    let (changed, s) ← s.checkedRemoveQuad q
    return (.ok (.flag changed), s)
  | .clear => .ok (.ok .done, s.clear)

def Operation.checkedRun (s : QuadStore) : Operation → Checked QuadStore
  | .edit e => do return (← e.checkedRun s).2
  | .walk pattern moves => do
    let c ← Cursor.checkedCreate s pattern
    return (← c.checkedMoves moves).2.store
  | .filter pattern => do
    match ← s.checkedFilter pattern with
    | (.ok (), copy) => return copy
    | (.error _, _) => return s
  | .setNamespace abbreviation space => .ok (s.setNamespace abbreviation space)
  | .eraseNamespace abbreviation => .ok (s.eraseNamespace abbreviation)

/-- The store after some operations on an empty one, if none of them has a mishap. -/
def checkedReached (config : Config) (operations : List Operation) : Checked QuadStore :=
  operations.foldlM Operation.checkedRun (create config)

/-- **Nothing that can be done with a store has a mishap.** -/
structure Flawless (s : QuadStore) : Prop where
  /-- The handles of a live record are there and have terms of the right kinds. -/
  reads : ∀ id, Statements.isLiveAt s.statements.records id = true →
    ∃ q, s.quad? id = some q ∧ s.checkedQuad id = .ok q
  asks : s.Askable
  edits : ∀ e : Edit, e.checkedRun s = .ok (e.run s)
  filters : ∀ p, s.checkedFilter p = .ok (s.filter p)
  /-- A cursor for the pattern can be made, and moved in any way. -/
  moves : ∀ p, Cursor.checkedCreate s p = .ok (Cursor.create s p) ∧
    ∀ moves, (Cursor.create s p).checkedMoves moves =
      .ok ((Cursor.create s p).replies moves, moves.foldl Cursor.move (Cursor.create s p))

variable {s : QuadStore}

lemma Edit.checkedRun_eq (h : s.Occurs) (e : Edit) : e.checkedRun s = .ok (e.run s) := by
  cases e with
  | add subject predicate object graphs => rw [checkedRun, h.checkedAdd_eq]; rfl
  | insert q => rw [checkedRun, h.checkedInsert_eq]; rfl
  | extend qs => rw [checkedRun, h.checkedExtendFrom_eq]; rfl
  | remove pattern => rw [checkedRun, h.checkedRemove_eq]; rfl
  | removeQuad q => rw [checkedRun, h.checkedRemoveQuad_eq]; rfl
  | clear => rfl

/-- **A store that occurs is flawless.** -/
theorem QuadStore.Occurs.flawless (h : s.Occurs) : Flawless s where
  reads _ := h.sound.checkedQuad_eq
  asks := h.fit.askable
  edits := Edit.checkedRun_eq h
  filters := h.checkedFilter_eq
  moves p := by
    refine ⟨?_, (Cursor.create_fit h p).checkedMoves_eq⟩
    rw [Cursor.checkedCreate, h.fit.checkedResolve_eq]
    rfl

lemma Flawless.checkedRun_eq (h : Flawless s) (operation : Operation) :
    operation.checkedRun s = .ok (operation.run s) := by
  cases operation with
  | edit e => rw [Operation.checkedRun, h.edits]; rfl
  | walk pattern moves =>
    rw [Operation.checkedRun, (h.moves pattern).1, ok_bind, (h.moves pattern).2]
    rfl
  | filter pattern =>
    rw [Operation.checkedRun, h.filters, ok_bind, Operation.run]
    rcases s.filter pattern with ⟨_ | _, copy⟩ <;> rfl
  | setNamespace abbreviation space => rfl
  | eraseNamespace abbreviation => rfl

/-- **No operation on a reachable store has a mishap.**  The operations that led to the store did
what they do without any, and whatever is done next will do so too. -/
theorem reached_flawless (config : Config) (operations : List Operation) :
    checkedReached config operations = .ok (reached config operations) ∧
      Flawless (reached config operations) := by
  refine ⟨?_, (reached_occurs config operations).flawless⟩
  refine (foldlM_eq_ok (fun (s : QuadStore) (_ : List Operation) => s.Occurs) ?_
    (Occurs.create config)).1
  exact fun s operation _ h => ⟨h.flawless.checkedRun_eq operation, h.run operation⟩

end QuadBase.Store
