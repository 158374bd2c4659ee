import QuadBase.Proofs.Store.Elementary
import QuadBase.Proofs.Store.Trails

/-!
# Chains before and after a sweep

A sweep happens in the middle of a removal: the record has become a tombstone, and the tombstones
are as many as the live records now.  It cuts every chain down to its live records.  The records
that it unlinks keep their own links, and this is what a walk relies on that stands on one of them.

* `Cleans` — what a sweep makes of the chains, and of the way that is left from each record.
* `Sound.cleans` — every sweep does so.
* `swept_chains` — **removals sweep like that**, also in the middle of other operations.
-/

namespace QuadBase.Store

open QuadBase.Rdf

namespace Statements

/-- What a sweep makes of the chains. -/
structure Cleans (t : Statements) : Prop where
  /-- Nothing is brought to life or put to death. -/
  terms?_eq : ∀ id, t.sweep.terms? id = t.terms? id
  /-- **The live records of a chain stay in it, in their order**, and nothing else does. -/
  chain_eq : ∀ handle p, t.sweep.chain handle p = (t.chain handle p).filter (isLiveAt t.records)
  /-- Following the links of the chain passes just these, and then ends. -/
  linked : ∀ handle p, Linked (nextOf t.sweep.records p) (t.sweep.chainAt handle p).head
    (t.sweep.chain handle p)
  /-- Tombstones keep their links in all positions. -/
  next_eq : ∀ id, t.terms? id = none → ∀ p, nextOf t.sweep.records p id = nextOf t.records p id
  /-- **From every record that was in a chain, the links still lead to the live records that came
  after it**, in their order and to no others, and then end.  Tombstones may lie on the way, which
  had come after it as well. -/
  onward : ∀ handle p before id after, t.chain handle p = before ++ id :: after →
    ∃ rest, Linked (nextOf t.sweep.records p) (nextOf t.sweep.records p id) rest ∧
      rest.filter (isLiveAt t.sweep.records) = after.filter (isLiveAt t.records) ∧
      rest.Sublist after

variable [Text.Hasher] {t : Statements} {handle id : Nat} {p : Position} {after : List Nat}

/-- The way on from the start of an end piece of a chain, live or not. -/
lemma Sound.onward (h : t.Sound) {start : Option Nat} {l : List Nat}
    (hsuffix : l <:+ t.chain handle p) (hl : Linked (nextOf t.records p) start l) :
    ∃ rest, Linked (nextOf t.sweep.records p) start rest ∧
      rest.filter (isLiveAt t.records) = l.filter (isLiveAt t.records) ∧ rest.Sublist l := by
  obtain ⟨hlinked, -, -, hrelinked⟩ := h.sweep_swept
  induction hl with
  | nil => exact ⟨[], .nil, rfl, .slnil⟩
  | @cons id l hrest ih =>
    cases hid : isLiveAt t.records id with
    | false =>
      obtain ⟨rest, hlinks, hfilter, hsub⟩ := ih ((List.suffix_cons id l).trans hsuffix)
      have hnext : nextOf t.sweep.records p id = nextOf t.records p id :=
        hrelinked.next_eq p id (by rw [hid]; exact Bool.false_ne_true)
      refine ⟨id :: rest, .cons (hnext ▸ hlinks), ?_, hsub.cons_cons id⟩
      rw [List.filter_cons, List.filter_cons, hid, hfilter]
    | true =>
      -- a live record is in the swept chain, which goes on from it
      refine ⟨(id :: l).filter (isLiveAt t.records), ?_, by simp, List.filter_sublist⟩
      obtain ⟨before, hbefore⟩ := hsuffix.filter (isLiveAt t.records)
      have hchain := hlinked handle p
      rw [← hbefore] at hchain
      rw [List.filter_cons_of_pos hid] at hchain ⊢
      exact hchain.of_append before

/-- **A sweep cuts every chain down to its live records, and spoils no way to them.** -/
theorem Sound.cleans (h : t.Sound) : t.Cleans where
  terms?_eq := h.sweep.2.1
  chain_eq handle p :=
    ((h.sweep_swept.1 handle p).unique (h.sweep.1.isChain handle p).linked).symm
  linked handle p := (h.sweep.1.isChain handle p).linked
  next_eq id hdead p := by
    refine h.sweep_swept.2.2.2.next_eq p id ?_
    rw [isLiveAt_eq_false_iff.2 hdead]
    exact Bool.false_ne_true
  onward handle p before id after hchain := by
    obtain ⟨-, -, -, hrelinked⟩ := h.sweep_swept
    have hlinked := (h.isChain handle p).linked
    rw [hchain] at hlinked
    have hsuffix : id :: after <:+ t.chain handle p := ⟨before, hchain.symm⟩
    obtain ⟨all, hall, hfilter, hsub⟩ := h.onward hsuffix (hlinked.of_append before)
    rw [hrelinked.isLiveAt_eq]
    cases hall with
    | @cons _ rest hrest =>
      refine ⟨rest, hrest, ?_, List.cons_sublist_cons.1 hsub⟩
      cases hid : isLiveAt t.records id with
      | true =>
        rw [List.filter_cons_of_pos hid, List.filter_cons_of_pos hid] at hfilter
        exact (List.cons.inj hfilter).2
      | false => rwa [List.filter_cons, List.filter_cons, hid] at hfilter

end Statements

open Statements

/-- **Removals sweep cleanly.**  Wherever a live record is removed, be it in the middle of an
operation on a reachable store, it becomes a tombstone first.  If a sweep is due then, it cuts every
chain down to its live records, and from each record that was in a chain, unlinked or not, the links
of the position still lead to the live records that came after it. -/
theorem swept_chains [Text.Hasher] {s : QuadStore} (h : s.Occurs) {id : Nat}
    {terms : PerPosition Nat} (hterms : s.statements.terms? id = some terms) :
    ∃ position, s.statements.search terms = .found position id ∧
      let t := s.statements.bury terms id position
      s.statements.remove id = (true, if t.live ≤ t.zombies.size then t.sweep else t) ∧
        t.Cleans := by
  have hs := h.sound.statements
  obtain ⟨position, hsearch, hentry⟩ := hs.search_found hterms
  refine ⟨position, hsearch, ?_, (hs.bury hterms hentry).cleans⟩
  rw [remove, hterms]
  simp only [hsearch, if_true]

/-- Four quads about one subject, two of which are removed in a row.  The second removal sweeps, and
the record that it unlinks still leads to the one behind it. -/
theorem swept_chains_four :
    let q (object : String) : Quad := ⟨.blank "a", ⟨"p"⟩, .blank object, .defaultGraph⟩
    let s := ((reached {} [.edit (.extend [q "b", q "c", q "d", q "e"])]).removeId 1).2
    s.statements.terms? 2 = some ⟨1, 2, 5, 0⟩ ∧ s.statements.chain 1 .subject = [3, 2, 1, 0] ∧
      let swept := (s.statements.remove 2).2
      swept.zombies = #[] ∧ swept.chain 1 .subject = [3, 0] ∧
        ∃ rest, Linked (nextOf swept.records .subject) (nextOf swept.records .subject 2) rest ∧
          rest.filter (isLiveAt swept.records) = [0] := by
  intro q s
  have hoccurs : s.Occurs := (QuadStore.reached_occurs {} _).removeId 1
  have hterms : s.statements.terms? 2 = some ⟨1, 2, 5, 0⟩ := by decide +kernel
  have hchain : s.statements.chain 1 .subject = [3, 2, 1, 0] := by decide +kernel
  obtain ⟨position, -, hremove, hcleans⟩ := swept_chains hoccurs hterms
  -- where the index has the record makes no difference to the chains and to the counts
  have hburied : ∀ (u : Statements) terms, let t := u.bury terms 2 position
      t.chain 1 .subject = (u.bury terms 2 0).chain 1 .subject ∧
      isLiveAt t.records = isLiveAt (u.bury terms 2 0).records ∧
      t.live = (u.bury terms 2 0).live ∧ t.zombies = (u.bury terms 2 0).zombies :=
    fun _ _ => ⟨rfl, rfl, rfl, rfl⟩
  obtain ⟨hchain', hlive, hcount, hzombies⟩ := hburied s.statements ⟨1, 2, 5, 0⟩
  have hdue : (s.statements.remove 2).2 = (s.statements.bury ⟨1, 2, 5, 0⟩ 2 position).sweep := by
    rw [hremove, if_pos]
    rw [hcount, hzombies]
    decide +kernel
  obtain ⟨rest, hlinked, hrest, -⟩ := hcleans.onward 1 .subject [3] 2 [1, 0]
    (hchain'.trans (by decide +kernel))
  refine ⟨hterms, hchain, by decide +kernel, by decide +kernel, rest, ?_, ?_⟩
  · rwa [hdue]
  · rw [hdue, hrest, hlive]
    decide +kernel

end QuadBase.Store
