import QuadBase.Proofs.Store.Audit
import QuadBase.Proofs.Store.Refinement
import QuadBase.Store.Cursor

/-!
# Reachable stores

Everything that a client can do to a store, one thing after the other, starting from an empty one.
Failing calls are included: they may leave part of their work done, but a sound store.

* `reached` — the store after a history of operations.
* `reached_sound` — **every reachable store is sound.**
* `Statements.Consistent` — what this means for the records, chains, numbers and index, spelled out,
  and `reached_consistent` — that it holds, and that the audit agrees.
-/

namespace QuadBase.Store

open QuadBase.Rdf QuadStore

/-! ## Histories -/

/-- What can be done with a cursor. -/
inductive Move where
  | next
  | remove
  deriving DecidableEq

/-- Whatever changes a store, or replaces it by another one. -/
inductive Operation where
  | edit (e : Edit)
  /-- A walk over the quads of a pattern that removes some of them on the way. -/
  | walk (pattern : Pattern) (moves : List Move)
  /-- The store of the quads of a pattern takes the place of this one, if there is room for it. -/
  | filter (pattern : Pattern)
  | setNamespace (abbreviation space : String)
  | eraseNamespace (abbreviation : String)

variable [Text.Hasher]

/-- Does one thing with a cursor. -/
def Cursor.move (c : Cursor) : Move → Cursor
  | .next => c.next.2
  | .remove => c.remove.2

/-- The store that an operation leaves, whatever it answers. -/
def Operation.run (s : QuadStore) : Operation → QuadStore
  | .edit e => (e.run s).2
  | .walk pattern moves => (moves.foldl Cursor.move (Cursor.create s pattern)).store
  | .filter pattern =>
    match s.filter pattern with
    | (.ok (), copy) => copy
    | (.error _, _) => s
  | .setNamespace abbreviation space => s.setNamespace abbreviation space
  | .eraseNamespace abbreviation => s.eraseNamespace abbreviation

/-- The store after some operations on an empty one. -/
def reached (config : Config) (operations : List Operation) : QuadStore :=
  operations.foldl Operation.run (create config)

/-! ## Soundness -/

/-- The abbreviations have no part in the invariant. -/
lemma QuadStore.Sound.withNamespaces {s : QuadStore} (h : s.Sound)
    (namespaces : Std.TreeMap String String) : Sound { s with namespaces } :=
  ⟨h.terms, h.statements, h.settled, h.chains_size, h.readable⟩

lemma Cursor.move_sound {c : Cursor} (h : c.store.Sound) (m : Move) : (c.move m).store.Sound := by
  cases m with
  | next => exact h
  | remove =>
    obtain ⟨s, walk, current⟩ := c
    cases current with
    | none => exact h
    | some id => exact (h.removeId id).1

lemma Cursor.foldl_move_sound {c : Cursor} (h : c.store.Sound) (moves : List Move) :
    (moves.foldl Cursor.move c).store.Sound := by
  induction moves generalizing c with
  | nil => exact h
  | cons m moves ih => exact ih (c.move_sound h m)

/-- **Every operation leaves a sound store.** -/
theorem Operation.run_sound {s : QuadStore} (h : s.Sound) (operation : Operation) :
    (operation.run s).Sound := by
  cases operation with
  | edit e => exact e.run_sound h
  | walk pattern moves =>
    have hcursor : (Cursor.create s pattern).store.Sound := h
    exact Cursor.foldl_move_sound hcursor moves
  | filter pattern =>
    have hcopy : Leads (s.filter pattern) Refused fun _ copy => copy.Sound :=
      ((create_sound s.config).extendFrom 0 (s.quads pattern)).andThen
        fun _ _ hgains => hgains.1.sound.withNamespaces s.namespaces
    rw [Operation.run]
    cases hfilter : s.filter pattern with
    | mk answer copy =>
      rw [hfilter] at hcopy
      cases answer with
      | error error => exact h
      | ok => exact hcopy
  | setNamespace abbreviation space => exact h.withNamespaces _
  | eraseNamespace abbreviation => exact h.withNamespaces _

/-- **Every reachable store is sound.** -/
theorem reached_sound (config : Config) (operations : List Operation) :
    (reached config operations).Sound := by
  have hfrom : ∀ {s : QuadStore}, s.Sound → (operations.foldl Operation.run s).Sound := by
    induction operations with
    | nil => exact id
    | cons operation operations ih => exact fun h => ih (operation.run_sound h)
  exact hfrom (create_sound config)

/-! ## Consistency -/

namespace Statements

open QuadBase.Index

/-- The four structures of a store agree. -/
structure Consistent (s : Statements) : Prop where
  /-- Following the links of a chain ends, -/
  linked : ∀ handle p, Linked (nextOf s.records p) (s.chainAt handle p).head (s.chain handle p)
  /-- and meets no record twice. -/
  nodup : ∀ handle p, (s.chain handle p).Nodup
  /-- A chain has all live records with its handle in its position and no other live ones, -/
  live_mem_iff : ∀ handle p id terms, s.terms? id = some terms →
    (id ∈ s.chain handle p ↔ terms.get p = handle)
  /-- and its other members are tombstones that wait for a sweep. -/
  dead_mem : ∀ handle p, ∀ id ∈ s.chain handle p, s.terms? id = none →
    id < s.records.size ∧ id ∈ s.zombies
  /-- A chain is counted by its live records. -/
  count_eq : ∀ handle p,
    (s.chainAt handle p).count = (s.chain handle p).countP (isLiveAt s.records)
  /-- Every record is live, or waits for a sweep, or is free, and only one of these. -/
  partition : ((List.range s.records.size).filter (isLiveAt s.records) ++ s.zombies.toList ++
    s.free.toList).Perm (List.range s.records.size)
  /-- A free record is in no chain. -/
  free_notMem : ∀ id ∈ s.free, ∀ handle p, id ∉ s.chain handle p
  /-- No two live records have the same four handles. -/
  distinct : ∀ id other terms, s.terms? id = some terms → s.terms? other = some terms → id = other
  /-- A live record has one index slot, and is found there. -/
  indexed : ∀ id terms, s.terms? id = some terms →
    s.index.count (.entry id) = 1 ∧ s.find? terms = some id
  /-- An index slot names a live record or none. -/
  entry_live : ∀ id, .entry id ∈ s.index → isLiveAt s.records id = true
  /-- The index knows how many of its slots are not empty. -/
  used_eq : s.used = s.index.countP (!·.isEmpty)
  live_eq : s.live = s.records.countP Statement.isLive
  /-- The tombstones in the chains are fewer than the live records, or there are none. -/
  settled : s.zombies.size = 0 ∨ s.zombies.size < s.live

theorem Sound.consistent {s : Statements} (h : s.Sound) (hsettled : s.Settled) : s.Consistent where
  linked handle p := (h.isChain handle p).linked
  nodup handle p := (h.isChain handle p).linked.nodup
  live_mem_iff handle p _ _ hterms := (h.isChain handle p).live_mem_iff hterms
  dead_mem handle p _ hmem hdead :=
    ⟨h.lt_size (h.isChain handle p) hmem, (h.isChain handle p).dead_mem hmem hdead⟩
  count_eq handle p := by rw [(h.isChain handle p).count_eq, List.countP_eq_length_filter]
  partition := by
    have hunused : ∀ id, id ∈ s.zombies.toList ++ s.free.toList ↔
        id < s.records.size ∧ isLiveAt s.records id = false := fun id => by
      rw [isLiveAt_eq_false_iff, ← h.unused_iff, List.mem_append, Array.mem_toList_iff,
        Array.mem_toList_iff, or_comm]
    have hnodup : (s.zombies.toList ++ s.free.toList).Nodup :=
      List.perm_append_comm.nodup_iff.1 h.nodup
    rw [List.append_assoc, List.perm_ext_iff_of_nodup ?_ List.nodup_range]
    · intro id
      rw [List.mem_append, List.mem_filter, hunused, List.mem_range]
      cases isLiveAt s.records id <;> simp
    · refine List.nodup_append.2 ⟨List.nodup_range.filter _, hnodup, ?_⟩
      intro a ha b hb heq
      have hlive := (List.mem_filter.1 ha).2
      rw [heq, ((hunused b).1 hb).2] at hlive
      cases hlive
  free_notMem _ hfree handle p := h.free_notMem (h.isChain handle p) hfree
  distinct _ _ _ := h.distinct
  indexed id _ hterms := ⟨by rw [h.entry_count, if_pos (isLiveAt_of_terms? hterms)],
    h.find?_eq_some_iff.2 hterms⟩
  entry_live _ := h.entry_mem_iff.1
  used_eq := h.used_eq
  live_eq := by rw [h.live_eq, card_liveSet, Array.countP_toList]
  settled := hsettled

/-- **Every record is live, waits for a sweep, or is free.** -/
lemma Sound.size_records {s : Statements} (h : s.Sound) (hsettled : s.Settled) :
    s.records.size = s.live + s.zombies.size + s.free.size := by
  have hlength := (h.consistent hsettled).partition.length_eq
  have hlive : ((List.range s.records.size).filter (isLiveAt s.records)).length = s.live := by
    rw [h.live_eq, ← List.toFinset_card_of_nodup (List.nodup_range.filter _)]
    congr 1
    ext id
    rw [List.mem_toFinset, List.mem_filter, List.mem_range, mem_liveSet]
    exact and_iff_right_of_imp lt_size_of_isLiveAt
  rw [List.length_append, List.length_append, hlive, List.length_range, Array.length_toList,
    Array.length_toList] at hlength
  exact hlength.symm

end Statements

/-- **The structures of a reachable store agree**, and its audit finds no fault. -/
theorem reached_consistent (config : Config) (operations : List Operation) :
    (reached config operations).statements.Consistent ∧
      (reached config operations).validate = .ok () := by
  have h := reached_sound config operations
  refine ⟨h.statements.consistent h.settled, ?_⟩
  rw [validate, h.statements.audit_eq]
  rfl

end QuadBase.Store
