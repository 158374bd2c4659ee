import QuadBase.Proofs.Store.Affording

/-!
# Terms and their handles over a history

Statements are told apart by the handles of their terms alone, so the whole store rests on there being
one handle for each term and one term for each handle.  A term gets its handle when it is first part
of an addition, and nothing ever takes the handle away: removals, sweeps and clearing have no part in
the terms.

* `Retains` — the terms of a store come first in another one, so they keep their handles.
* `Meets` — what a change does to the terms: all keep their handles, and if it succeeds, exactly
  the given ones are known besides.  `Meets.edit` says so of every edit.
* `passed` — the terms that have been part of additions, and `reached_known` — **these are the
  terms that have a handle.**
* `reached_handles` — **one handle for each of them, for good, and none for other terms.**
-/

namespace QuadBase.Store

open QuadBase.Rdf

section Handles

variable [Text.Hasher]

namespace TermTable

/-- Interning finds a term, adds a term behind the others, or fails and changes nothing. -/
lemma intern_terms (t : TermTable) (term : Term) :
    (∃ handle, t.term? handle = some term ∧ t.intern term = (.ok handle, t)) ∨
      (∃ handle t', t.intern term = (.ok handle, t') ∧ t'.terms = t.terms.push term) ∨
      ∃ e, t.intern term = (.error e, t) := by
  rw [intern]
  split
  next position handle hsearch =>
    exact .inl ⟨handle, eq_of_beq (Index.probe_found_mem hsearch).2, rfl⟩
  next position hsearch =>
    dsimp only
    split
    next =>
      refine .inr (.inl ⟨_, _, rfl, ?_⟩)
      rw [add]
      split <;> rfl
    next => exact .inr (.inr ⟨_, rfl⟩)
  next => exact .inr (.inr ⟨_, rfl⟩)

end TermTable

namespace QuadStore

variable {s s' s'' : QuadStore} {terms more : Finset Term} {α β : Type}

/-! ## Terms of a store that come first in another one -/

omit [Text.Hasher] in
/-- The terms of `s` come first in `s'`. -/
def Retains (s s' : QuadStore) : Prop :=
  s.terms.terms.toList <+: s'.terms.terms.toList

omit [Text.Hasher] in
lemma Retains.refl (s : QuadStore) : s.Retains s :=
  List.prefix_refl _

omit [Text.Hasher] in
lemma Retains.trans (h : s.Retains s') (h' : s'.Retains s'') : s.Retains s'' :=
  List.IsPrefix.trans h h'

omit [Text.Hasher] in
lemma Retains.of_eq (h : s'.terms = s.terms) : s.Retains s' := by
  rw [Retains, h]

omit [Text.Hasher] in
/-- **A term keeps its handle.** -/
lemma Retains.term? (h : s.Retains s') {handle : Nat} {term : Term}
    (hterm : s.terms.term? handle = some term) : s'.terms.term? handle = some term := by
  rw [TermTable.term?_eq_some_iff, ← Array.getElem?_toList] at hterm ⊢
  obtain ⟨hlt, rfl⟩ := List.getElem?_eq_some_iff.1 hterm.2
  exact ⟨hterm.1, List.prefix_iff_getElem?.1 h _ hlt⟩

/-! ## What a change does to the terms -/

omit [Text.Hasher] in
/-- All terms keep their handles, and a change that succeeds gives handles to the given terms, but to
no others. -/
def Meets (s : QuadStore) (terms : Finset Term) (c : Change α) : Prop :=
  Leads c (fun _ s' => s.Retains s') fun _ s' => s.Retains s' ∧ s'.known = s.known ∪ terms

namespace Meets

omit [Text.Hasher] in
lemma retains {c : Change α} (h : s.Meets terms c) : s.Retains c.2 :=
  h.store_of (fun _ _ => id) fun _ _ => And.left

omit [Text.Hasher] in
/-- **The terms of changes one after the other come together.** -/
lemma andThen {c : Change α} {next : α → QuadStore → Change β} (hc : s.Meets terms c)
    (hnext : ∀ (a : α) (s' : QuadStore), s'.Meets more (next a s')) :
    s.Meets (terms ∪ more) (QuadStore.andThen c next) := by
  refine Leads.andThen hc ?_
  rintro a s' ⟨hretains, hknown⟩
  have h := hnext a s'
  generalize next a s' = c' at h ⊢
  obtain ⟨answer, s''⟩ := c'
  cases answer with
  | error e => exact hretains.trans h
  | ok b => exact ⟨hretains.trans h.1, by rw [h.2, hknown, Finset.union_assoc]⟩

omit [Text.Hasher] in
/-- A change that leaves the terms alone. -/
lemma of_eq {c : Change α} (h : c.2.terms = s.terms) : s.Meets ∅ c := by
  have hretains := Retains.of_eq h
  obtain ⟨answer, s'⟩ := c
  cases answer with
  | error e => exact hretains
  | ok a => exact ⟨hretains, by rw [known, h, Finset.union_empty, known]⟩

lemma internTerm (s : QuadStore) (term : Term) : s.Meets {term} (s.internTerm term) := by
  rw [QuadStore.internTerm]
  rcases s.terms.intern_terms term with ⟨handle, hterm, hintern⟩ | ⟨handle, t, hintern, hpush⟩ |
    ⟨e, hintern⟩
  · rw [hintern]
    refine ⟨.refl s, (Finset.union_eq_left.2 ?_).symm⟩
    exact Finset.singleton_subset_iff.2 (mem_known.2 ⟨handle, hterm⟩)
  · rw [hintern]
    constructor
    · rw [Retains, hpush, Array.toList_push]
      exact List.prefix_append _ _
    · rw [known, hpush, Array.toList_push, List.toFinset_append]
      rfl
  · rw [hintern]
    exact Retains.refl s

lemma internGraph (s : QuadStore) (graph : GraphName) :
    s.Meets graph.terms (s.internGraph graph) := by
  cases graph with
  | defaultGraph => exact of_eq rfl
  | named r => exact internTerm s (.resource r)

lemma link (s : QuadStore) (subject predicate object : Nat) (graph : GraphName) :
    s.Meets graph.terms (s.link subject predicate object graph) := by
  have h := (internGraph s graph).andThen fun handle s' =>
    of_eq (c := s'.insertHandles ⟨subject, predicate, object, handle⟩) rfl
  rwa [Finset.union_empty] at h

lemma linkAll (s : QuadStore) (subject predicate object : Nat) (changed : Bool)
    (graphs : List GraphName) :
    s.Meets (graphs.toFinset.biUnion GraphName.terms)
      (s.linkAll subject predicate object changed graphs) := by
  induction graphs generalizing s changed with
  | nil => exact of_eq rfl
  | cons graph graphs ih =>
    rw [List.toFinset_cons, Finset.biUnion_insert]
    exact (link s subject predicate object graph).andThen fun added s' => ih s' (changed || added)

/-- What is added to no graph is added to the default graph, which has no term. -/
lemma add (s : QuadStore) (subject : Resource) (predicate : Iri) (object : Term)
    (graphs : List GraphName) :
    s.Meets ({.resource subject} ∪ ({.iri predicate} ∪
        ({object} ∪ graphs.toFinset.biUnion GraphName.terms)))
      (s.add subject predicate object graphs) := by
  refine (internTerm s _).andThen fun hs s₁ => (internTerm s₁ _).andThen fun hp s₂ =>
    (internTerm s₂ _).andThen fun ho s₃ => ?_
  cases graphs with
  | nil => exact linkAll s₃ hs hp ho false [.defaultGraph]
  | cons graph graphs => exact linkAll s₃ hs hp ho false (graph :: graphs)

lemma insert (s : QuadStore) (q : Quad) : s.Meets q.terms (s.insert q) := by
  have h := add s q.subject q.predicate q.object [q.graph]
  rwa [show [q.graph].toFinset.biUnion GraphName.terms = q.graph.terms from
    Finset.singleton_biUnion] at h

lemma extendFrom (s : QuadStore) (count : Nat) (qs : List Quad) :
    s.Meets (termsOf qs.toFinset) (s.extendFrom count qs) := by
  induction qs generalizing s count with
  | nil => exact of_eq rfl
  | cons q qs ih =>
    rw [termsOf, List.toFinset_cons, Finset.biUnion_insert]
    exact (insert s q).andThen fun added s' => ih s' _

end Meets

/-! ## Removals have no part in the terms -/

lemma terms_removeIds (s : QuadStore) (changed : Bool) (ids : List Nat) :
    (s.removeIds changed ids).2.terms = s.terms := by
  induction ids generalizing s changed with
  | nil => rfl
  | cons id ids ih => exact ih (s.removeId id).2 _

lemma terms_remove (s : QuadStore) (pattern : Pattern) : (s.remove pattern).2.terms = s.terms := by
  rw [remove]
  split
  · rfl
  · exact terms_removeIds s false _

lemma terms_removeQuad (s : QuadStore) (q : Quad) : (s.removeQuad q).2.terms = s.terms := by
  rw [removeQuad]
  cases s.find? q with
  | none => rfl
  | some id => rfl

end QuadStore

lemma Cursor.terms_move (c : Cursor) (m : Move) : (c.move m).store.terms = c.store.terms := by
  cases m with
  | next => rfl
  | remove =>
    obtain ⟨s, walk, current⟩ := c
    cases current with
    | none => rfl
    | some id => rfl

lemma Cursor.terms_foldl_move (c : Cursor) (moves : List Move) :
    (moves.foldl Cursor.move c).store.terms = c.store.terms := by
  induction moves generalizing c with
  | nil => rfl
  | cons m moves ih => rw [List.foldl_cons, ih, terms_move]

open QuadStore

/-! ## Edits -/

omit [Text.Hasher] in
/-- The terms that an edit passes to the store, to be added. -/
def Edit.terms : Edit → Finset Term
  | .add subject predicate object graphs =>
    {.resource subject} ∪ ({.iri predicate} ∪
      ({object} ∪ graphs.toFinset.biUnion GraphName.terms))
  | .insert q => q.terms
  | .extend qs => termsOf qs.toFinset
  | .remove _ | .removeQuad _ | .clear => ∅

/-- **An edit gives handles to the terms that are added**, and takes none away. -/
theorem QuadStore.Meets.edit (s : QuadStore) (e : Edit) : s.Meets e.terms (e.run s) := by
  have hreply : ∀ {α : Type} {terms : Finset Term} {c : Change α} {reply : α → Reply},
      s.Meets terms c → s.Meets terms (QuadStore.andThen c fun a s => (.ok (reply a), s)) := by
    intro α terms c reply hc
    have h := hc.andThen fun a s' => of_eq (c := (.ok (reply a), s')) rfl
    rwa [Finset.union_empty] at h
  cases e with
  | add subject predicate object graphs => exact hreply (Meets.add s subject predicate object graphs)
  | insert q => exact hreply (Meets.insert s q)
  | extend qs => exact hreply (extendFrom s 0 qs)
  | remove pattern => exact of_eq (terms_remove s pattern)
  | removeQuad q => exact of_eq (terms_removeQuad s q)
  | clear => exact of_eq rfl

/-! ## Histories -/

/-- The terms passed to a store so far, `passed` being those before the operation.  A copy is a store
of its own, to which the terms of its quads have been passed. -/
def Operation.passed (s : QuadStore) (passed : Finset Term) : Operation → Finset Term
  | .edit e => passed ∪ e.terms
  | .filter pattern =>
    match s.filter pattern with
    | (.ok (), _) => termsOf (s.quads pattern).toFinset
    | (.error _, _) => passed
  | .walk _ _ | .setNamespace _ _ | .eraseNamespace _ => passed

/-- **The terms passed to the store**: those that have been part of an addition since the store was
created. -/
def passed (config : Config) (operations : List Operation) : Finset Term :=
  (operations.foldl (fun (s, passed) operation => (operation.run s, operation.passed s passed))
    (create config, ∅)).2

lemma passed_concat (config : Config) (operations : List Operation) (operation : Operation) :
    passed config (operations ++ [operation]) =
      operation.passed (reached config operations) (passed config operations) := by
  rw [passed, List.foldl_concat]
  exact congrArg (operation.passed · (passed config operations)) (fst_foldl_beside _ _ _ _)

/-- No edit so far has failed because the store was full. -/
def NeverFull (config : Config) (operations : List Operation) : Prop :=
  ∀ before e, before ++ [.edit e] <+: operations → ∀ stock limit,
    (e.run (reached config before)).1 ≠ .error (.capacityExceeded stock limit)

lemma neverFull_nil (config : Config) : NeverFull config [] := by
  intro before e hbefore
  exact absurd (List.append_eq_nil_iff.1 (List.prefix_nil.1 hbefore)).2 (List.cons_ne_nil _ _)

variable {s : QuadStore} {config : Config} {operations : List Operation} {operation : Operation}

lemma NeverFull.of_concat (h : NeverFull config (operations ++ [operation])) :
    NeverFull config operations :=
  fun before e hbefore => h before e (hbefore.trans (List.prefix_append _ _))

/-- One more edit, which succeeds. -/
lemma NeverFull.concat {e : Edit} {reply : Reply} (h : NeverFull config operations)
    (hrun : (e.run (reached config operations)).1 = .ok reply) :
    NeverFull config (operations ++ [.edit e]) := by
  intro before last hbefore stock limit hfull
  rcases List.prefix_concat_iff.1 hbefore with heq | hbefore
  · obtain ⟨rfl, hlast⟩ := List.append_inj' heq rfl
    obtain rfl := Operation.edit.inj (List.singleton_inj.1 hlast)
    cases hrun.symm.trans hfull
  · exact h before last hbefore stock limit hfull

/-- An operation that does not fail makes known what is passed to it. -/
lemma Operation.known_run (h : s.Sound) (operation : Operation)
    (hroom : ∀ e, operation = .edit e → ∀ stock limit,
      (e.run s).1 ≠ .error (.capacityExceeded stock limit)) :
    (operation.run s).known = operation.passed s s.known := by
  cases operation with
  | edit e =>
    have hmeets := Meets.edit s e
    have hleads := e.run_leads h
    have hroom := hroom e rfl
    rw [Operation.run, Operation.passed]
    generalize e.run s = c at hmeets hleads hroom
    obtain ⟨answer, s'⟩ := c
    cases answer with
    | error error =>
      obtain ⟨⟨stock, limit, rfl⟩, -⟩ := hleads
      exact absurd rfl (hroom stock limit)
    | ok reply => exact hmeets.2
  | walk pattern moves =>
    rw [Operation.run, known, Cursor.terms_foldl_move]
    rfl
  | filter pattern =>
    have hmeets := Meets.extendFrom (create s.config) 0 (s.quads pattern)
    rw [Operation.run, Operation.passed, QuadStore.filter, QuadStore.extend]
    generalize (create s.config).extendFrom 0 (s.quads pattern) = c at hmeets
    obtain ⟨answer, copy⟩ := c
    cases answer with
    | error error => rfl
    | ok count =>
      -- the copy began without terms, whatever the store had
      have hknown : copy.known = termsOf (s.quads pattern).toFinset := by
        rw [hmeets.2, show (create s.config).known = ∅ from rfl, Finset.empty_union]
      exact hknown
  | setNamespace abbreviation space => rfl
  | eraseNamespace abbreviation => rfl

/-- **The terms that have been passed to a store are the terms that have a handle.** -/
theorem reached_known (h : NeverFull config operations) :
    (reached config operations).known = passed config operations := by
  induction operations using List.reverseRecOn with
  | nil => rfl
  | append_singleton operations operation ih =>
    rw [reached_concat, passed_concat, ← ih h.of_concat]
    refine operation.known_run (reached_sound config operations) ?_
    rintro e rfl
    exact h operations e (List.prefix_refl _)

/-- Nothing but a copy takes handles away. -/
lemma Operation.retains_run (s : QuadStore) (h : ∀ pattern, operation ≠ .filter pattern) :
    s.Retains (operation.run s) := by
  cases operation with
  | edit e => exact (Meets.edit s e).retains
  | walk pattern moves => exact .of_eq (Cursor.terms_foldl_move _ moves)
  | filter pattern => exact absurd rfl (h pattern)
  | setNamespace abbreviation space => exact .refl s
  | eraseNamespace abbreviation => exact .refl s

lemma retains_foldl_run (s : QuadStore) (h : ∀ pattern, .filter pattern ∉ operations) :
    s.Retains (operations.foldl Operation.run s) := by
  induction operations generalizing s with
  | nil => exact .refl s
  | cons operation operations ih =>
    have hfirst : ∀ pattern, operation ≠ .filter pattern := fun pattern heq =>
      h pattern (heq ▸ List.mem_cons_self)
    exact (operation.retains_run s hfirst).trans
      (ih _ fun pattern hmem => h pattern (List.mem_cons_of_mem _ hmem))

/-- **Every term that has been passed to the store has one handle, and no other term has one.**  There
is one handle more than there are such terms, that of the default graph.  A handle stays for good,
whatever else is done, and only additions have a part in the terms. -/
theorem reached_handles (h : NeverFull config operations) :
    let s := reached config operations
    (∀ term ∈ passed config operations, ∃! handle, s.terms.term? handle = some term) ∧
      (∀ term handle, s.terms.handle? term = some handle ↔ s.terms.term? handle = some term) ∧
      (∀ term, s.terms.handle? term = none ↔ term ∉ passed config operations) ∧
      s.terms.size = (passed config operations).card + 1 ∧
      s.statements.chains.size = s.terms.size ∧
      (∀ more, (∀ pattern, .filter pattern ∉ more) → ∀ term handle,
        s.terms.handle? term = some handle →
          (reached config (operations ++ more)).terms.handle? term = some handle) ∧
      (∀ pattern, (s.remove pattern).2.terms = s.terms) ∧
      (∀ q, (s.removeQuad q).2.terms = s.terms) ∧
      s.clear.terms = s.terms ∧
      ∀ (pattern : Pattern) (moves : List Move),
        (moves.foldl Cursor.move (Cursor.create s pattern)).store.terms = s.terms := by
  intro s
  have hsound : s.Sound := reached_sound config operations
  have hknown : s.known = passed config operations := reached_known h
  refine ⟨fun term hmem => ?_, fun _ _ => hsound.terms.handle?_eq_some_iff, fun term => ?_, ?_,
    hsound.chains_size, fun more hmore term handle hhandle => ?_, terms_remove s,
    terms_removeQuad s, rfl, fun _ _ => Cursor.terms_foldl_move _ _⟩
  · obtain ⟨handle, hterm⟩ := mem_known.1 (hknown ▸ hmem)
    exact ⟨handle, hterm, fun other hother => hsound.terms.injective hother hterm⟩
  · rw [← hknown, ← hsound.handle?_isSome_iff, Option.not_isSome_iff_eq_none]
  · rw [← hknown, hsound.card_known]
  · have hsound' := reached_sound config (operations ++ more)
    rw [hsound.terms.handle?_eq_some_iff] at hhandle
    rw [hsound'.terms.handle?_eq_some_iff, reached, List.foldl_append]
    exact (retains_foldl_run s hmore).term? hhandle

end Handles

/-- A quad is inserted, all quads are dropped, and another quad with one of its terms is inserted. -/
theorem reached_handles_cleared :
    let q : Quad := ⟨.blank "a", ⟨"p"⟩, .blank "b", .defaultGraph⟩
    let r : Quad := ⟨.blank "b", ⟨"q"⟩, .blank "b", .named (.blank "a")⟩
    let operations : List Operation := [.edit (.insert q), .edit .clear, .edit (.insert r)]
    NeverFull {} operations ∧ (passed {} operations).card = 4 ∧
      (reached {} operations).terms.size = 5 := by
  intro q r operations
  have hinsert : ((Edit.insert q).run (reached {} [])).1 = .ok (.flag true) := by decide +kernel
  have hclear : (Edit.clear.run (reached {} [.edit (.insert q)])).1 = .ok .done := rfl
  have hagain : ((Edit.insert r).run (reached {} [.edit (.insert q), .edit .clear])).1 =
      .ok (.flag true) := by decide +kernel
  have hnever : NeverFull {} operations :=
    (((neverFull_nil {}).concat hinsert).concat hclear).concat hagain
  have hcard : (passed {} operations).card = 4 := by decide +kernel
  exact ⟨hnever, hcard, (reached_handles hnever).2.2.2.1.trans (by rw [hcard])⟩

end QuadBase.Store
