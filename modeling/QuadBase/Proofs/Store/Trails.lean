import QuadBase.Proofs.Store.Removal

/-!
# Ways that outlive removals

A walk may stand on a record that is removed, and a sweep may unlink that record, the one behind it,
and whole runs of tombstones.  `Trail s handle p start l` says what the links still lead to: from
`start` over tombstones, linked or not, into the chain of the handle.

* `Trail.bury`, `Trail.sweep` — **a trail is kept by both halves of a removal.**  A sweep makes it
  shorter, but the live records on it stay, in their order.
* `Sound.remove_spares` — what a removal leaves as it was, put together.
-/

namespace QuadBase.Store.Statements

open QuadBase.Index QuadBase.Rdf

variable [Text.Hasher] {s : Statements} {handle id position : Nat} {p : Position}
  {terms : PerPosition Nat} {start : Option Nat} {l : List Nat}

/-- From `start` on, the links of a position pass the records of the list: some tombstones, and then
an end piece of the chain of the handle. -/
inductive Trail (s : Statements) (handle : Nat) (p : Position) : Option Nat → List Nat → Prop where
  | joined {start : Option Nat} {l : List Nat} (suffix : l <:+ s.chain handle p)
      (linked : Linked (nextOf s.records p) start l) : Trail s handle p start l
  /-- A tombstone need not be in the chain. -/
  | passing {id : Nat} {l : List Nat} (dead : s.terms? id = none)
      (rest : Trail s handle p (nextOf s.records p id) l) : Trail s handle p (some id) (id :: l)

namespace Trail

omit [Text.Hasher] in
lemma linked (h : Trail s handle p start l) : Linked (nextOf s.records p) start l := by
  induction h with
  | joined _ linked => exact linked
  | passing _ _ ih => exact .cons ih

omit [Text.Hasher] in
/-- The next record is on a trail, too. -/
lemma next (h : Trail s handle p (some id) l) : ∃ l', Trail s handle p (nextOf s.records p id) l' := by
  cases h with
  | @joined _ l suffix linked =>
    cases linked with
    | @cons _ l rest => exact ⟨l, .joined ((List.suffix_cons id l).trans suffix) rest⟩
  | @passing _ l dead rest => exact ⟨l, rest⟩

lemma ofHead (h : s.Sound) (handle : Nat) (p : Position) :
    Trail s handle p (s.chainAt handle p).head (s.chain handle p) :=
  .joined (List.suffix_refl _) (h.isChain handle p).linked

/-- A new tombstone stays where it is. -/
lemma bury (h : Trail s handle p start l) (hs : s.Sound) (hterms : s.terms? id = some terms)
    (hentry : s.index[position]? = some (.entry id)) :
    Trail (s.bury terms id position) handle p start l := by
  have hchain : (s.bury terms id position).chain handle p = s.chain handle p :=
    (hs.bury hterms hentry).chain_eq
      (isChain_bury hterms (hs.lt_handles hterms) (hs.isChain handle p))
  induction h with
  | joined suffix linked => exact .joined (hchain ▸ suffix) (by rwa [nextOf_bury])
  | @passing other l dead rest ih =>
    refine .passing ?_ (by rwa [nextOf_bury])
    rw [terms?_bury, dead, ite_self]

/-- **Unlinked records keep their links**, so a trail loses tombstones only. -/
theorem sweep (h : Trail s handle p start l) (hs : s.Sound) :
    ∃ l', Trail s.sweep handle p start l' ∧ l'.length ≤ l.length ∧
      l'.filter (isLiveAt s.records) = l.filter (isLiveAt s.records) := by
  obtain ⟨hlinked, -, -, hrelinked⟩ := hs.sweep_swept
  obtain ⟨hsound, hterms, -⟩ := hs.sweep
  have hdead : ∀ {id}, s.terms? id = none →
      nextOf s.sweep.records p id = nextOf s.records p id := fun {id} hid => by
    refine hrelinked.next_eq p id ?_
    rw [isLiveAt_eq_false_iff.2 hid]
    exact Bool.false_ne_true
  have hpass : ∀ {id l l'}, s.terms? id = none →
      Trail s.sweep handle p (nextOf s.records p id) l' → l'.length ≤ l.length →
      l'.filter (isLiveAt s.records) = l.filter (isLiveAt s.records) →
      ∃ l'', Trail s.sweep handle p (some id) l'' ∧ l''.length ≤ (id :: l).length ∧
        l''.filter (isLiveAt s.records) = (id :: l).filter (isLiveAt s.records) :=
    fun {id l l'} hid htrail hlength hfilter => by
      have hnot := isLiveAt_eq_false_iff.2 hid
      refine ⟨id :: l', .passing ((hterms id).trans hid) (hdead hid ▸ htrail),
        Nat.succ_le_succ hlength, ?_⟩
      rw [List.filter_cons, List.filter_cons, hnot, hfilter]
  induction h with
  | passing dead _ ih =>
    obtain ⟨l', htrail, hlength, hfilter⟩ := ih
    exact hpass dead htrail hlength hfilter
  | joined suffix linked =>
    induction linked with
    | nil => exact ⟨[], .joined List.nil_suffix .nil, Nat.le_refl _, rfl⟩
    | @cons id l rest ih =>
      cases hid : s.terms? id with
      | none =>
        obtain ⟨l', htrail, hlength, hfilter⟩ := ih ((List.suffix_cons id l).trans suffix)
        exact hpass hid htrail hlength hfilter
      | some terms =>
        -- from the first live record on, the trail is what the sweep left of the chain
        have hlive := isLiveAt_of_terms? hid
        have hswept := suffix.filter (isLiveAt s.records)
        have hchain := hlinked handle p
        refine ⟨(id :: l).filter (isLiveAt s.records), .joined ?_ ?_, List.length_filter_le _ _,
          by simp⟩
        · rwa [← hchain.unique (hsound.isChain handle p).linked]
        · obtain ⟨before, hbefore⟩ := hswept
          rw [← hbefore] at hchain
          rw [List.filter_cons_of_pos hlive] at hchain ⊢
          exact hchain.of_append before

end Trail

/-! ## Removals -/

/-- What a removal leaves as it was, apart from its own record. -/
structure Spares (s : Statements) (id : Nat) (s' : Statements) : Prop where
  sound : s'.Sound
  terms?_eq : ∀ other, s'.terms? other = if other = id then none else s.terms? other
  size_eq : s'.records.size = s.records.size
  /-- Trails keep their live records. -/
  trail : ∀ {handle p start l}, Trail s handle p start l →
    ∃ l', Trail s' handle p start l' ∧ l'.length ≤ l.length ∧
      l'.filter (isLiveAt s'.records) = l.filter (isLiveAt s'.records)

theorem Sound.remove_spares (h : s.Sound) (id : Nat) : s.Spares id (s.remove id).2 := by
  cases hterms : s.terms? id with
  | none =>
    have hsame : (s.remove id).2 = s := by rw [remove, hterms]
    rw [hsame]
    refine ⟨h, fun other => ?_, rfl, fun htrail => ⟨_, htrail, Nat.le_refl _, rfl⟩⟩
    split
    next heq => rw [heq, hterms]
    next => rfl
  | some terms =>
    obtain ⟨position, hentry, hremove⟩ := h.remove_eq hterms
    have hburied := h.bury hterms hentry
    rw [hremove]
    dsimp only
    split
    next =>
      obtain ⟨hsound, hsame, -⟩ := hburied.sweep
      obtain ⟨-, -, -, hrelinked⟩ := hburied.sweep_swept
      refine ⟨hsound, fun other => (hsame other).trans (terms?_bury other),
        hrelinked.size_eq.trans size_records_bury, fun htrail => ?_⟩
      rw [hrelinked.isLiveAt_eq]
      exact (htrail.bury h hterms hentry).sweep hburied
    next =>
      exact ⟨hburied, terms?_bury, size_records_bury,
        fun htrail => ⟨_, htrail.bury h hterms hentry, Nat.le_refl _, rfl⟩⟩

end QuadBase.Store.Statements
