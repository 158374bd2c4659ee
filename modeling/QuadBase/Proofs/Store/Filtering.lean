import QuadBase.Proofs.Store.Affording
import QuadBase.Proofs.Store.CheckedStore

/-!
# Copies of a part

A filter copies the quads of a pattern into a new store.  The copy is made by additions, and these
may fail in general; but here they cannot.  A copy needs no handle and no record that the store
itself has not needed: it has the terms and the quads of a part of it, and no tombstones.

* `Occurs.terms_size_le`, `Occurs.card_contents_le` — a store has not run out of what it has.
* `CopyLoop` — the loop that makes a copy: the cursor moves on, and the copy takes what it gives.
* `Copies` — what a copy has of its source, and how it answers.
* `reached_filter` — **every reachable store can be filtered by every pattern**, and the result is a
  copy.
-/

namespace QuadBase.Store

open QuadBase.Rdf QuadStore

variable [Text.Hasher]

namespace QuadStore

variable {s copy copied : QuadStore} {p : Pattern}

/-! ## What a store has needed -/

/-- Handles are given out below their bound only. -/
lemma Occurs.terms_size_le (h : s.Occurs) : s.terms.size ≤ TermTable.capacity := by
  induction h with
  | create config => exact (by decide : 1 ≤ TermTable.capacity)
  | @internTerm s h term ih =>
    change (s.terms.intern term).2.size ≤ TermTable.capacity
    rcases h.sound.terms.intern_cases term with ⟨handle, -, hintern⟩ |
      ⟨-, hroom, terms, -, hpush, hintern⟩ | ⟨-, -, hintern⟩
    · rwa [hintern]
    · rw [hintern, TermTable.size, hpush, Array.size_push]
      exact hroom
    · rwa [hintern]
  | insertHandles _ _ ih => exact ih
  | removeId _ _ ih => exact ih
  | clear _ ih => exact ih
  | withNamespaces _ _ ih => exact ih

/-- Every quad has a record. -/
lemma Occurs.card_contents_le (h : s.Occurs) : s.contents.card ≤ Statements.capacity := by
  refine (List.toFinset_card_le _).trans ((List.length_filterMap_le _ _).trans ?_)
  rw [List.length_range]
  exact h.bounded.size_le

/-- The terms of a part of the quads are among the known ones. -/
lemma Sound.termsOf_quads_subset (h : s.Sound) (p : Pattern) :
    termsOf (s.quads p).toFinset ⊆ s.known := by
  rw [termsOf, Finset.biUnion_subset]
  intro q hq
  exact Sound.terms_subset_known (mem_contents.1 (h.mem_quads.1 (List.mem_toFinset.1 hq)).1)

/-- **An empty store can afford a part of any store that occurs.** -/
lemma Occurs.affords_quads (h : s.Occurs) (p : Pattern) :
    (QuadStore.create s.config).Affords (termsOf (s.quads p).toFinset) (s.quads p).toFinset := by
  have hknown : (QuadStore.create s.config).known = ∅ := rfl
  have hcontents : (QuadStore.create s.config).contents = ∅ := rfl
  have hcard := h.sound.card_known
  have hbound := h.terms_size_le
  refine ⟨rfl, ?_, ?_⟩
  · rw [hknown, Finset.empty_union]
    have hle := Finset.card_le_card (h.sound.termsOf_quads_subset p)
    omega
  · rw [hcontents, Finset.empty_union, h.sound.toFinset_quads]
    exact (Finset.card_le_card (Finset.filter_subset _ _)).trans h.card_contents_le

/-! ## Making a copy -/

/-- The loop that makes a copy, from a cursor and a copy to what they are in the end: the cursor
moves on, and what it gives is put into the copy. -/
inductive CopyLoop : Cursor → QuadStore → Cursor → QuadStore → Prop where
  | done {c : Cursor} {copy : QuadStore} (ends : c.next.1 = none) : CopyLoop c copy c.next.2 copy
  | step {c c' : Cursor} {copy copy' copied : QuadStore} {q : Quad} {added : Bool}
      (gives : c.next.1 = some q) (inserts : copy.insert q = (.ok added, copy'))
      (rest : CopyLoop c.next.2 copy' c' copied) : CopyLoop c copy c' copied

/-- Putting the quads of a cursor in is what the loop does.  The cursor reads its store and leaves
it alone. -/
lemma copyLoop_of_yields {c : Cursor} {qs : List Quad} (h : Yields c qs) {count total : Nat}
    (hextend : copy.extendFrom count qs = (.ok total, copied)) :
    ∃ c', CopyLoop c copy c' copied ∧ c'.store = c.store := by
  induction h generalizing copy count with
  | @done c ends =>
    obtain ⟨-, rfl⟩ := Prod.mk.inj hextend
    exact ⟨c.next.2, .done ends, rfl⟩
  | @step c q qs gives _ ih =>
    rw [extendFrom] at hextend
    cases hinsert : copy.insert q with
    | mk answer copy' =>
      rw [hinsert] at hextend
      cases answer with
      | error e => cases hextend
      | ok added =>
        obtain ⟨c', hloop, hstore⟩ := ih hextend
        exact ⟨c', .step gives hinsert hloop, hstore⟩

omit [Text.Hasher] in
lemma Leads.exists_ok {α : Type} {c : Change α} {done : α → QuadStore → Prop}
    (h : Leads c (fun _ _ => False) done) : ∃ a s', c = (.ok a, s') ∧ done a s' := by
  obtain ⟨answer, s'⟩ := c
  cases answer with
  | error e => exact h.elim
  | ok a => exact ⟨a, s', rfl, h⟩

/-- What a copy of the quads of a pattern has of its source, and how it answers. -/
structure Copies (s : QuadStore) (p : Pattern) (copy : QuadStore) : Prop where
  contains_iff : ∀ q, copy.contains q = true ↔ s.contains q = true ∧ p.admits q = true
  size_eq : copy.size = s.count p
  /-- The terms that occur in the quads have a handle and no others do, -/
  handle?_isSome_iff : ∀ term, (copy.terms.handle? term).isSome ↔
    ∃ q, s.contains q = true ∧ p.admits q = true ∧ term ∈ q.terms
  /-- and each has one, as has the default graph. -/
  terms_size_eq : copy.terms.size = (termsOf (s.quads p).toFinset).card + 1
  config_eq : copy.config = s.config
  namespaces_eq : copy.namespaces = s.namespaces
  sound : copy.Sound
  consistent : copy.statements.Consistent
  validate_eq : copy.validate = .ok ()
  /-- Another pattern selects from the copy what both select from the source. -/
  query : ∀ r : Pattern, ∃ qs : List Quad, Yields (Cursor.create copy r) qs ∧ qs.Nodup ∧
    (∀ q, q ∈ qs ↔ s.contains q = true ∧ p.admits q = true ∧ r.admits q = true) ∧
    copy.count r = qs.length

/-- The terms and quads of a pattern make a copy. -/
lemma Sound.copies (h : s.Sound) (hcopy : copy.Sound)
    (hcontents : copy.contents = (s.quads p).toFinset)
    (hknown : copy.known = termsOf (s.quads p).toFinset) (hconfig : copy.config = s.config)
    (hnamespaces : copy.namespaces = s.namespaces) : Copies s p copy := by
  have hmem : ∀ q, q ∈ copy.contents ↔ s.contains q = true ∧ p.admits q = true := by
    intro q
    rw [hcontents, List.mem_toFinset, h.mem_quads, h.contains_iff, mem_contents]
  refine {
    contains_iff := fun q => ?_
    size_eq := ?_
    handle?_isSome_iff := fun term => ?_
    terms_size_eq := ?_
    config_eq := hconfig
    namespaces_eq := hnamespaces
    sound := hcopy
    consistent := hcopy.statements.consistent hcopy.settled
    validate_eq := ?_
    query := fun r => ⟨_, yields_quads hcopy r, hcopy.nodup_quads r, fun q => ?_, hcopy.count_eq r⟩ }
  · rw [hcopy.contains_iff, ← mem_contents, hmem]
  · rw [hcopy.size_eq, hcontents, List.toFinset_card_of_nodup (h.nodup_quads p), h.count_eq]
  · rw [hcopy.handle?_isSome_iff, hknown, ← hcontents, termsOf, Finset.mem_biUnion]
    exact exists_congr fun q => by rw [hmem, and_assoc]
  · rw [← hcopy.card_known, hknown]
  · rw [validate, hcopy.statements.audit_eq]
    rfl
  · rw [hcopy.mem_quads, hmem, and_assoc]

/-- **A store that occurs can be filtered by every pattern.** -/
theorem Occurs.filter_eq (h : s.Occurs) (p : Pattern) :
    ∃ copy, s.filter p = (.ok (), copy) ∧ Copies s p copy ∧
      ∃ c copied, CopyLoop (Cursor.create s p) (QuadStore.create s.config) c copied ∧ c.store = s ∧
        copy = { copied with namespaces := s.namespaces } := by
  obtain ⟨total, copied, hextend, hcopied, -⟩ :=
    ((create_sound s.config).succeeds_extendFrom 0 (s.quads p) (h.affords_quads p)).exists_ok
  have hkept := Kept.extendFrom (QuadStore.create s.config) 0 (s.quads p)
  rw [hextend] at hkept
  obtain ⟨c, hloop, hstore⟩ := copyLoop_of_yields (yields_quads h.sound p) hextend
  refine ⟨{ copied with namespaces := s.namespaces }, ?_, ?_, c, copied, hloop, hstore, rfl⟩
  · rw [QuadStore.filter, extend, hextend]
    rfl
  · have hcontents : copied.contents = (s.quads p).toFinset :=
      hcopied.contents_eq.trans (Finset.empty_union _)
    have hknown : copied.known = termsOf (s.quads p).toFinset :=
      hcopied.known_eq.trans (Finset.empty_union _)
    exact h.sound.copies (hcopied.sound.withNamespaces s.namespaces) hcontents hknown
      hkept.config_eq rfl

end QuadStore

/-- **Every reachable store can be filtered by every pattern**, and what comes out is a copy of the
quads that the pattern admits: with a handle for their terms and for no others, with the
configuration and the abbreviations of its source, and sound.  The loop that makes it leaves the
source as it was.  The copy is a reachable store in turn. -/
theorem reached_filter (config : Config) (operations : List Operation) (p : Pattern) :
    let s := reached config operations
    ∃ copy, s.filter p = (.ok (), copy) ∧ Copies s p copy ∧
      (∃ c copied, CopyLoop (Cursor.create s p) (create s.config) c copied ∧ c.store = s ∧
        copy = { copied with namespaces := s.namespaces }) ∧
      reached config (operations ++ [.filter p]) = copy := by
  obtain ⟨copy, hfilter, hcopies, hloop⟩ := (reached_occurs config operations).filter_eq p
  refine ⟨copy, hfilter, hcopies, hloop, ?_⟩
  rw [reached_concat, Operation.run, hfilter]

end QuadBase.Store
