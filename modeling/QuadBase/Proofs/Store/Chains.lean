import Mathlib.Data.List.Perm.Subperm
import Mathlib.Tactic.Common
import QuadBase.Store.Statements

/-!
# Chains as lists

A chain is linked through the records.  `Linked next start l` says that following `next` from
`start` passes exactly the numbers of `l` and then ends.  A list that is linked at all is determined
by its start (`Linked.unique`), meets no record twice (`Linked.nodup`), and is what a bounded walk
visits if the bound allows for it (`follow_eq`).

Relinking only touches links.  `Relinked may records records'` is the frame of such a change: the
handles of all records are as before, and so are all links outside `may`.
-/

namespace QuadBase.Store.Statements

open QuadBase.Rdf

/-! ## Linked lists -/

/-- Following `next` from `start` gives the numbers of the list, in order, and then ends. -/
inductive Linked (next : Nat → Option Nat) : (start : Option Nat) → List Nat → Prop where
  | nil : Linked next none []
  | cons {id : Nat} {l : List Nat} (rest : Linked next (next id) l) :
      Linked next (some id) (id :: l)

namespace Linked

variable {next next' : Nat → Option Nat} {start : Option Nat} {l l' : List Nat} {id : Nat}

/-- A start has one list at most. -/
theorem unique (h : Linked next start l) (h' : Linked next start l') : l = l' := by
  induction h generalizing l' with
  | nil =>
    cases h'
    rfl
  | cons rest ih =>
    cases h' with
    | cons rest' => rw [ih rest']

lemma of_append (before : List Nat) (h : Linked next start (before ++ id :: l)) :
    Linked next (some id) (id :: l) := by
  induction before generalizing start with
  | nil =>
    cases h with
    | cons rest => exact .cons rest
  | cons first before ih =>
    cases h with
    | cons rest => exact ih rest

/-- A list that comes back to its first record would not end. -/
lemma notMem_tail (h : Linked next start (id :: l)) : id ∉ l := by
  intro hmem
  obtain ⟨before, after, rfl⟩ := List.append_of_mem hmem
  have hshort : Linked next (some id) (id :: after) := of_append (id :: before) h
  cases h with
  | cons rest =>
    have heq := (Linked.cons rest).unique hshort
    have hlength := congrArg List.length heq
    simp only [List.length_cons, List.length_append] at hlength
    omega

/-- **No record is met twice.** -/
theorem nodup (h : Linked next start l) : l.Nodup := by
  induction h with
  | nil => exact List.nodup_nil
  | cons rest ih => exact List.nodup_cons.2 ⟨notMem_tail (.cons rest), ih⟩

/-- Only the links of the members matter. -/
lemma congr (h : Linked next start l) (hnext : ∀ id ∈ l, next' id = next id) :
    Linked next' start l := by
  induction h with
  | nil => exact .nil
  | @cons id l rest ih =>
    refine .cons ?_
    rw [hnext id List.mem_cons_self]
    exact ih fun other hother => hnext other (List.mem_cons_of_mem id hother)

end Linked

/-- A bounded walk visits the whole list if the bound is not less than its length. -/
theorem follow_eq {records : Array Statement} {p : Position} {start : Option Nat} {l : List Nat}
    (h : Linked (nextOf records p) start l) {steps : Nat} (hsteps : l.length ≤ steps) :
    follow records p steps start = l := by
  induction h generalizing steps with
  | nil => cases steps <;> rfl
  | cons rest ih =>
    cases steps with
    | zero => cases hsteps
    | succ steps => rw [follow, ih (Nat.le_of_succ_le_succ hsteps)]

/-- As numbers of records, distinct numbers are at most as many as there are records. -/
lemma length_le_of_lt {l : List Nat} {count : Nat} (hnodup : l.Nodup) (h : ∀ id ∈ l, id < count) :
    l.length ≤ count := by
  have hsub : l ⊆ List.range count := fun id hid => List.mem_range.2 (h id hid)
  simpa using (hnodup.subperm hsub).length_le

/-! ## Links and handles of records -/

variable {records records' records'' : Array Statement} {p q : Position} {id other : Nat}

/-- The handles of a record, none for a tombstone. -/
def termsAt (records : Array Statement) (id : Nat) : Option (PerPosition Nat) :=
  records[id]?.bind Statement.terms

section Present

variable {record : Statement} (h : records[id]? = some record)

include h

/-- What is said of the record with a number, where there is one. -/
lemma termsAt_of_getElem? : termsAt records id = record.terms := by
  rw [termsAt, h, Option.bind_some]

lemma nextOf_of_getElem? : nextOf records p id = record.next.get p := by
  rw [nextOf, h, Option.bind_some]

lemma isLiveAt_of_getElem? : isLiveAt records id = record.isLive := by
  rw [isLiveAt, h, Option.any_some]

end Present

lemma isLiveAt_eq : isLiveAt records id = (termsAt records id).isSome := by
  rw [isLiveAt, termsAt]
  cases records[id]? <;> rfl

lemma lt_size_of_isLiveAt (h : isLiveAt records id = true) : id < records.size := by
  by_contra hnot
  rw [isLiveAt, Array.getElem?_eq_none (Nat.not_lt.1 hnot)] at h
  cases h

lemma size_setNext {next : Option Nat} : (setNext records p id next).size = records.size :=
  Array.size_modify

lemma termsAt_setNext {next : Option Nat} :
    termsAt (setNext records p id next) other = termsAt records other := by
  rw [termsAt, termsAt, setNext, Array.getElem?_modify]
  split
  · cases records[other]? <;> rfl
  · rfl

/-- Replacing a link changes that link alone. -/
lemma nextOf_setNext {next : Option Nat} (hid : id < records.size) :
    nextOf (setNext records p id next) q other =
      if other = id ∧ q = p then next else nextOf records q other := by
  rw [nextOf, setNext, Array.getElem?_modify]
  by_cases hother : id = other
  · subst hother
    rw [if_pos rfl, nextOf, Array.getElem?_eq_getElem hid]
    simp only [Option.map_some, Option.bind_some, PerPosition.get_set, true_and]
  · rw [if_neg hother, if_neg fun h => hother h.1.symm]
    rfl

/-- The chain of a handle in a position, empty if there is no such handle. -/
def chainIn (chains : Array (PerPosition Chain)) (handle : Nat) (p : Position) : Chain :=
  (chains[handle]?.getD noChains).get p

/-! ## Relinking -/

/-- `records'` are `records` with other links, but only those that `may` allows. -/
structure Relinked (may : Position → Nat → Prop) (records records' : Array Statement) : Prop where
  size_eq : records'.size = records.size
  terms_eq : ∀ id, termsAt records' id = termsAt records id
  next_eq : ∀ p id, ¬ may p id → nextOf records' p id = nextOf records p id

namespace Relinked

variable {may may' : Position → Nat → Prop}

lemma refl : Relinked may records records :=
  ⟨rfl, fun _ => rfl, fun _ _ _ => rfl⟩

lemma mono (h : Relinked may records records') (hmay : ∀ p id, may p id → may' p id) :
    Relinked may' records records' :=
  ⟨h.size_eq, h.terms_eq, fun p id hnot => h.next_eq p id fun hm => hnot (hmay p id hm)⟩

lemma trans (h : Relinked may records records') (h' : Relinked may records' records'') :
    Relinked may records records'' :=
  ⟨h'.size_eq.trans h.size_eq, fun id => (h'.terms_eq id).trans (h.terms_eq id),
    fun p id hnot => (h'.next_eq p id hnot).trans (h.next_eq p id hnot)⟩

lemma isLiveAt_eq (h : Relinked may records records') :
    Statements.isLiveAt records' = Statements.isLiveAt records := by
  funext id
  rw [Statements.isLiveAt_eq, Statements.isLiveAt_eq, h.terms_eq]

/-- A list none of whose links may change stays linked. -/
lemma linked (h : Relinked may records records') {start : Option Nat} {l : List Nat}
    (hl : Linked (nextOf records p) start l) (hmay : ∀ id ∈ l, ¬ may p id) :
    Linked (nextOf records' p) start l :=
  hl.congr fun id hid => h.next_eq p id (hmay id hid)

end Relinked

lemma relinked_setNext (p : Position) (next : Option Nat) (hid : id < records.size) :
    Relinked (fun q other => q = p ∧ other = id) records (setNext records p id next) where
  size_eq := size_setNext
  terms_eq _ := termsAt_setNext
  next_eq q other hnot := by
    rw [nextOf_setNext hid, if_neg fun h => hnot ⟨h.2, h.1⟩]

end QuadBase.Store.Statements
