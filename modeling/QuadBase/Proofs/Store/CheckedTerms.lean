import QuadBase.Proofs.Index.Checked
import QuadBase.Proofs.Tables

/-!
# Terms, with every access checked

What a term table does, with a mishap where a handle has no term or a number is no machine word.

* `Sound.checkedSearch_eq` — searching has no mishap, because the slots name no other handles than
  those given out.
* `Sound.checkedIntern_eq` — **and neither has interning**, also where the table grows.
-/

namespace QuadBase.Store.TermTable

open QuadBase.Index QuadBase.Rdf

/-- The term of a handle, none for the default graph.  The handle has to be there. -/
def checkedTerm (t : TermTable) (handle : Nat) : Checked (Option Term) :=
  if handle = defaultGraph then .ok none
  else some <$> elementAt .danglingHandle t.terms (handle - 1)

lemma checkedTerm_eq {t : TermTable} {handle : Nat} (h : handle < t.size) :
    t.checkedTerm handle = .ok (t.term? handle) := by
  rw [checkedTerm, term?]
  split
  next => rfl
  next hpos =>
    rw [size] at h
    have hlt : handle - 1 < t.terms.size := by
      rw [defaultGraph] at hpos
      omega
    rw [elementAt_eq_ok (Array.getElem?_eq_getElem hlt), Array.getElem?_eq_getElem hlt]
    rfl

variable [Text.Hasher]

def checkedSearch (t : TermTable) (term : Term) : Checked (Probe Nat) :=
  checkedProbe t.slots term.hash.toNat fun handle => do
    return (← t.checkedTerm handle) == some term

def checkedHandle? (t : TermTable) (term : Term) : Checked (Option Nat) := do
  match ← t.checkedSearch term with
  | .found _ handle => return some handle
  | _ => return none

def checkedGraphHandle? (t : TermTable) : GraphName → Checked (Option Nat)
  | .defaultGraph => .ok (some defaultGraph)
  | .named r => t.checkedHandle? (.resource r)

/-- Adds a new term, whose search ended at `position`. -/
def checkedAdd (t : TermTable) (term : Term) (position : Nat) : Checked TermTable := do
  let terms := t.terms.push term
  if isCrowded (terms.size + 1) t.slots.size then
    let slots ← checkedEnterAll (fun term : Term => some term.hash.toNat) terms 1 (2 * t.slots.size)
    let slots ← checkedPlace slots term.hash.toNat terms.size
    return ⟨terms, slots⟩
  else
    let slots ← checkedSet t.slots position (← slotNumber terms.size)
    return ⟨terms, slots⟩

/-- The handle of a term, which is given out if the term is new. -/
def checkedIntern (t : TermTable) (term : Term) :
    Checked (Except StoreError Nat × TermTable) := do
  match ← t.checkedSearch term with
  | .found _ handle => return (.ok handle, t)
  | .vacant position =>
    let handle := t.size
    if handle < capacity then
      let t ← t.checkedAdd term position
      return (.ok handle, t)
    else return (.error (.capacityExceeded .terms capacity), t)
  | .exhausted => throw .endless

variable {t : TermTable}

lemma Sound.checkedSearch_eq (h : t.Sound) (hsize : t.slots.size.isPowerOfTwo) (term : Term) :
    t.checkedSearch term = .ok (t.search term) := by
  refine checkedProbe_eq (h.spacious hsize).searchable _ ?_
  intro handle hmem
  have hlt : handle < t.size := by
    have hrange := (h.entry_mem_iff handle).1 hmem
    rw [size]
    omega
  rw [checkedTerm_eq hlt, ok_bind]
  rfl

lemma Sound.checkedHandle?_eq (h : t.Sound) (hsize : t.slots.size.isPowerOfTwo) (term : Term) :
    t.checkedHandle? term = .ok (t.handle? term) := by
  rw [checkedHandle?, h.checkedSearch_eq hsize, ok_bind, handle?]
  cases t.search term <;> rfl

lemma Sound.checkedGraphHandle?_eq (h : t.Sound) (hsize : t.slots.size.isPowerOfTwo)
    (graph : GraphName) : t.checkedGraphHandle? graph = .ok (t.graphHandle? graph) := by
  cases graph with
  | defaultGraph => rfl
  | named r => exact h.checkedHandle?_eq hsize (.resource r)

/-- Adding a term has no mishap as long as there is a number for it. -/
lemma Sound.checkedAdd_eq (h : t.Sound) (hsize : t.slots.size.isPowerOfTwo) {term : Term}
    {position : Nat} (hsearch : t.search term = .vacant position) (hroom : t.size < capacity) :
    t.checkedAdd term position = .ok (t.add term position) := by
  have huncrowded := h.uncrowded
  have hword : t.terms.size + 1 + 1 < wordBound - 1 := by
    rw [size, capacity] at hroom
    rw [wordBound]
    omega
  obtain ⟨-, s, hs, -⟩ := onPath_of_probe_vacant hsearch (size_pos_of_mem h.empty_mem)
  obtain ⟨terms, slots⟩ := t
  dsimp only at huncrowded hword hs hsize
  rw [checkedAdd, TermTable.add]
  simp only [Array.size_push]
  split
  next =>
    have hfilled := enterAll_filled ⟨terms.push term, slots⟩ (2 * slots.size)
      (by simp only [Array.size_push]; omega)
    have hspacious := hfilled.spacious (isPowerOfTwo_double hsize)
      (by simp only [List.length_range', Array.size_push]; omega)
    have henter : checkedEnterAll (fun term : Term => some term.hash.toNat) (terms.push term) 1
        (2 * slots.size) = .ok (enterAll (terms.push term) (2 * slots.size)) := by
      rw [checkedEnterAll_eq _ (isPowerOfTwo_double hsize), enterAll, ← Array.foldl_toList]
      · rfl
      · simp only [Option.isSome_some, List.countP_true, Array.length_toList, Array.size_push]
        omega
      · rw [Array.size_push]
        omega
    rw [henter, ok_bind, checkedPlace_eq hspacious _ (by omega)]
    rfl
  next =>
    rw [slotNumber_eq_ok (by omega), ok_bind, checkedSet_eq_ok hs]
    rfl

/-- **Interning a term has no mishap.** -/
theorem Sound.checkedIntern_eq (h : t.Sound) (hsize : t.slots.size.isPowerOfTwo) (term : Term) :
    t.checkedIntern term = .ok (t.intern term) := by
  rw [checkedIntern, h.checkedSearch_eq hsize, ok_bind, TermTable.intern]
  cases hsearch : t.search term with
  | found => rfl
  | vacant position =>
    dsimp only
    split
    next hroom =>
      rw [h.checkedAdd_eq hsize hsearch hroom]
      rfl
    next => rfl
  | exhausted => exact absurd hsearch (h.search_ne_exhausted term)

end QuadBase.Store.TermTable
