import QuadBase.Proofs.Store.Estimates
import QuadBase.Proofs.Store.Iteration

/-!
# The choice of a way

A leg is answered from the chain of one of the handles that it binds, or by a scan if it binds none.
The chain with the lowest count is chosen, as it promises the shortest walk.  That is all the choice
is about: chains and scan are kept up apart from each other, hold tombstones and come in different
orders, but the records of the leg are met on every way.

* `Leg.along` — the records of a leg that are met on a way.
* `Leg.Offers.along_perm` — **all ways meet the same records**, each once.
* `Walk.Gathers` — moving a walk on until it ends gives the records of a list, and
  `Walk.gathers_along` — which ones these are for a walk that takes a given way.
* `Leg.access_eq_scan_iff`, `Leg.access_eq_chain` — which way is chosen.
* `reached_ways` — all this in every reachable store.
-/

namespace QuadBase.Store

open QuadBase.Rdf

/-! ## Ways -/

namespace Leg

variable {leg : Leg} {s : Statements} {access other : Access} {id : Nat}

/-- The records of a leg that are met on a way. -/
def along (leg : Leg) (s : Statements) (access : Access) : List Nat :=
  (visited s access).filter (leg.admitsAt s.records)

section Sound

variable [Text.Hasher]

/-- On every way that a leg offers, the live records are met that agree with it. -/
lemma Offers.mem_along (hoffers : leg.Offers s access) (h : s.Sound) :
    id ∈ leg.along s access ↔ ∃ handles, s.terms? id = some handles ∧ leg.Agrees handles := by
  rw [along, List.mem_filter, ← admitsAt_iff]
  exact and_iff_right_of_imp ((hoffers.visited h).2 id)

lemma Offers.nodup_along (hoffers : leg.Offers s access) (h : s.Sound) :
    (leg.along s access).Nodup :=
  (hoffers.visited h).1.filter _

/-- **All ways meet the same records.** -/
theorem Offers.along_perm (hoffers : leg.Offers s access) (hother : leg.Offers s other)
    (h : s.Sound) : (leg.along s access).Perm (leg.along s other) := by
  rw [List.perm_ext_iff_of_nodup (hoffers.nodup_along h) (hother.nodup_along h)]
  intro id
  rw [hoffers.mem_along h, hother.mem_along h]

end Sound

/-! ## The choice -/

lemma mem_boundChains {p : Position} {c : Chain} :
    (p, c) ∈ leg.boundChains s ↔ ∃ handle, leg.get p = some handle ∧ s.chainAt handle p = c := by
  rw [boundChains, List.mem_filterMap]
  constructor
  · rintro ⟨⟨q, bound⟩, hmem, hentry⟩
    obtain ⟨handle, rfl, heq⟩ := Option.map_eq_some_iff.1 hentry
    obtain ⟨rfl, rfl⟩ := Prod.mk.inj heq
    exact ⟨handle, PerPosition.mem_toList.1 hmem, rfl⟩
  · rintro ⟨handle, hbound, rfl⟩
    exact ⟨(p, some handle), PerPosition.mem_toList.2 hbound, rfl⟩

/-- A scan is chosen if there is no chain to choose from. -/
theorem access_eq_scan_iff : leg.access s = .scan ↔ ∀ p, leg.get p = none := by
  have hchains : cheapest (leg.boundChains s) = none ↔ ∀ p, leg.get p = none := by
    rw [← Option.map_eq_none_iff, count_cheapest, List.min?_eq_none_iff, List.map_eq_nil_iff,
      List.eq_nil_iff_forall_not_mem]
    constructor
    · intro h p
      rw [Option.eq_none_iff_forall_ne_some]
      exact fun handle hbound => h (p, _) (mem_boundChains.2 ⟨handle, hbound, rfl⟩)
    · rintro h ⟨p, c⟩ hmem
      obtain ⟨handle, hbound, -⟩ := mem_boundChains.1 hmem
      rw [h p] at hbound
      cases hbound
  rw [← hchains, access]
  cases cheapest (leg.boundChains s) with
  | none => simp
  | some entry => simp

/-- **The chain that is chosen is one with the lowest count** among those of the bound handles. -/
theorem access_eq_chain (hbound : ∃ p, (leg.get p).isSome) : ∃ p handle, leg.get p = some handle ∧
    leg.access s = .chain p (s.chainAt handle p).head ∧
    ∀ q rival, leg.get q = some rival →
      (s.chainAt handle p).count ≤ (s.chainAt rival q).count := by
  cases hcheapest : cheapest (leg.boundChains s) with
  | none =>
    have hscan : leg.access s = .scan := by rw [access, hcheapest]
    obtain ⟨p, hp⟩ := hbound
    rw [access_eq_scan_iff.1 hscan p] at hp
    cases hp
  | some entry =>
    obtain ⟨p, c⟩ := entry
    obtain ⟨handle, hhandle, rfl⟩ := mem_boundChains.1 (cheapest_mem hcheapest)
    refine ⟨p, handle, hhandle, by rw [access, hcheapest], ?_⟩
    have hmin := count_cheapest (leg.boundChains s)
    rw [hcheapest, Option.map_some, eq_comm, List.min?_eq_some_iff] at hmin
    intro q rival hrival
    exact hmin.2 _ (List.mem_map.2 ⟨(q, _), mem_boundChains.2 ⟨rival, hrival, rfl⟩, rfl⟩)

end Leg

/-! ## Walks -/

namespace Walk

/-- Moving the walk on gives the records of the list one by one, and then none. -/
inductive Gathers (s : Statements) : Walk → List Nat → Prop where
  | done {w : Walk} (ends : (w.advance s).1 = none) : Gathers s w []
  | step {w : Walk} {id : Nat} {ids : List Nat} (gives : (w.advance s).1 = some id)
      (rest : Gathers s (w.advance s).2 ids) : Gathers s w (id :: ids)

variable [Text.Hasher] {leg : Leg} {s : Statements}

/-- A walk gathers the records ahead of it. -/
lemma Ahead.gathers (h : s.Sound) {w : Walk} {ids : List Nat} (hahead : Ahead s w ids) :
    Gathers s w ids := by
  induction ids generalizing w with
  | nil => exact .done (hahead.advance h).1
  | cons id ids ih =>
    obtain ⟨hgives, hrest⟩ := hahead.advance h
    exact .step hgives (ih hrest)

/-- **A walk that takes some way gathers the records that are met on it.** -/
theorem gathers_along (h : s.Sound) {access : Access} (hoffers : leg.Offers s access) :
    Gathers s ⟨[leg], begin access⟩ (leg.along s access) := by
  have hahead : Ahead s ⟨[leg], begin access⟩ (leg.along s access ++ matchingAll [] s) :=
    .cons (begin_remains h hoffers)
  rw [matchingAll, List.flatMap_nil, List.append_nil] at hahead
  exact hahead.gathers h

end Walk

/-! ## Reachable stores -/

variable [Text.Hasher]

/-- **The way to the records of a leg does not matter.**  In every reachable store, the chain of any
handle that a leg binds leads to the records that a scan finds, each of them once, and so does a walk
that starts there.  The chain that is chosen is one with the lowest count, and all records are
scanned exactly if no handle is bound. -/
theorem reached_ways (config : Config) (operations : List Operation) (leg : Leg) :
    let s := (reached config operations).statements
    ((leg.along s .scan).Nodup ∧ Walk.Gathers s ⟨[leg], .scan 0⟩ (leg.along s .scan) ∧
      ∀ id, id ∈ leg.along s .scan ↔ ∃ handles, s.terms? id = some handles ∧ leg.Agrees handles) ∧
    (∀ p handle, leg.get p = some handle →
      let way := Access.chain p (s.chainAt handle p).head
      (leg.along s way).Nodup ∧ (leg.along s way).Perm (leg.along s .scan) ∧
        Walk.Gathers s ⟨[leg], Walk.begin way⟩ (leg.along s way)) ∧
    (leg.access s = .scan ↔ ∀ p, leg.get p = none) ∧
    ((∃ p, (leg.get p).isSome) → ∃ p handle, leg.get p = some handle ∧
      leg.access s = .chain p (s.chainAt handle p).head ∧
      ∀ q rival, leg.get q = some rival →
        (s.chainAt handle p).count ≤ (s.chainAt rival q).count) := by
  intro s
  have h : s.Sound := (reached_sound config operations).statements
  have hscan : leg.Offers s .scan := .scan
  refine ⟨⟨hscan.nodup_along h, Walk.gathers_along h hscan, fun id => hscan.mem_along h⟩, ?_,
    Leg.access_eq_scan_iff, Leg.access_eq_chain⟩
  intro p handle hbound
  have hchain : leg.Offers s (.chain p (s.chainAt handle p).head) := .chain hbound
  exact ⟨hchain.nodup_along h, hchain.along_perm hscan h, Walk.gathers_along h hchain⟩

end QuadBase.Store
