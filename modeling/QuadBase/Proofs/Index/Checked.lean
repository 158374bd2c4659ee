import QuadBase.Proofs.Index.Ending

/-!
# Searches that check every access

The slots of a table, and the items that they name, are reached by number.  A number that nothing
has would stop the program, and so would counting below zero; counting past the largest machine
word would give a wrong number.  The searches below do what those of the tables do, with the loops
as they run, and report such a `Mishap` as soon as it occurs.

* `elementAt`, `checkedSet`, `decreased`, `slotNumber` — the accesses and the arithmetic.
* `checkedProbe_eq`, `checkedPlace_eq` — **where a slot is empty no search has a mishap**, as long
  as the entries name items that are there.
* `checkedEnterAll_eq` — and neither has entering all items into a larger array.
-/

namespace QuadBase.Index

variable {α β : Type}

/-! ## Mishaps -/

/-- What would stop the program or give it a wrong number. -/
inductive Mishap where
  | danglingSlot
  | danglingRecord
  | danglingHandle
  /-- A count below zero. -/
  | underflow
  /-- A number that is no machine word. -/
  | overflow
  /-- A search that comes around without an answer. -/
  | endless
  /-- A subject that is neither an IRI nor a blank node. -/
  | wrongSubject
  /-- A predicate that is no IRI. -/
  | wrongPredicate
  /-- An object that is no term. -/
  | wrongObject
  /-- A literal in place of a graph name. -/
  | wrongGraph
  deriving DecidableEq

/-- The outcome of a program that stops at its first mishap. -/
abbrev Checked (α : Type) : Type := Except Mishap α

/-- Machine words are below this bound. -/
def wordBound : Nat := Nat.pow 2 32

/-- The element of an array with a number, which has to be there. -/
def elementAt (mishap : Mishap) (xs : Array α) (i : Nat) : Checked α :=
  match xs[i]? with
  | some x => .ok x
  | none => .error mishap

/-- Goes on if a condition holds. -/
def ensure (condition : Prop) [Decidable condition] (mishap : Mishap) : Checked Unit :=
  if condition then .ok () else .error mishap

/-- One less, which must not be below zero. -/
def decreased (n : Nat) : Checked Nat :=
  if n = 0 then .error .underflow else .ok (n - 1)

/-- The content of a slot that names an item.  It is one more than the number of the item, and the
largest word is the deletion marker. -/
def slotNumber (number : Nat) : Checked (Slot Nat) :=
  if number + 1 < wordBound - 1 then .ok (.entry number) else .error .overflow

/-- Overwrites a slot, which has to be there. -/
def checkedSet (slots : Array (Slot α)) (position : Nat) (s : Slot α) : Checked (Array (Slot α)) :=
  if position < slots.size then .ok (slots.setIfInBounds position s) else .error .danglingSlot

lemma elementAt_eq_ok {mishap : Mishap} {xs : Array α} {i : Nat} {x : α} (h : xs[i]? = some x) :
    elementAt mishap xs i = .ok x := by
  rw [elementAt, h]

lemma ensure_eq_ok {condition : Prop} [Decidable condition] {mishap : Mishap} (h : condition) :
    ensure condition mishap = .ok () :=
  if_pos h

lemma decreased_eq_ok {n : Nat} (h : 0 < n) : decreased n = .ok (n - 1) :=
  if_neg h.ne'

lemma slotNumber_eq_ok {number : Nat} (h : number + 1 < wordBound - 1) :
    slotNumber number = .ok (.entry number) :=
  if_pos h

lemma checkedSet_eq_ok {slots : Array (Slot α)} {position : Nat} {old : Slot α}
    (h : slots[position]? = some old) (s : Slot α) :
    checkedSet slots position s = .ok (slots.setIfInBounds position s) :=
  if_pos (Array.getElem?_eq_some_iff.1 h).1

/-- A step that has no mishap hands its result on. -/
lemma ok_bind (a : α) (next : α → Checked β) : ((Except.ok a : Checked α) >>= next) = next a :=
  rfl

lemma mapM_eq_ok {f : α → Checked β} {g : α → β} {l : List α} (h : ∀ a ∈ l, f a = .ok (g a)) :
    l.mapM f = .ok (l.map g) := by
  induction l with
  | nil => rfl
  | cons a l ih =>
    rw [List.mapM_cons, h a List.mem_cons_self, ok_bind,
      ih fun b hb => h b (List.mem_cons_of_mem a hb)]
    rfl

/-- The same where the results are known to exist. -/
lemma mapM_eq_ok_filterMap {f : α → Checked β} {g : α → Option β} {l : List α}
    (h : ∀ a ∈ l, ∃ b, g a = some b ∧ f a = .ok b) : l.mapM f = .ok (l.filterMap g) := by
  induction l with
  | nil => rfl
  | cons a l ih =>
    obtain ⟨b, hg, hf⟩ := h a List.mem_cons_self
    rw [List.mapM_cons, hf, ok_bind, ih fun c hc => h c (List.mem_cons_of_mem a hc),
      List.filterMap_cons_some hg]
    rfl

/-- A loop has no mishap if none of its steps has.  What the steps keep up may speak of the items
that are still to come. -/
lemma foldlM_eq_ok {f : β → α → Checked β} {g : β → α → β} (fits : β → List α → Prop)
    (hstep : ∀ b a l, fits b (a :: l) → f b a = .ok (g b a) ∧ fits (g b a) l) {b : β} {l : List α}
    (h : fits b l) : l.foldlM f b = .ok (l.foldl g b) ∧ fits (l.foldl g b) [] := by
  induction l generalizing b with
  | nil => exact ⟨rfl, h⟩
  | cons a l ih =>
    obtain ⟨hfirst, hfits⟩ := hstep b a l h
    rw [List.foldlM_cons, hfirst]
    exact ih hfits

/-! ## Searching -/

/-- The rest of a search for an entry that is the `same`. -/
def checkedProbeFrom (slots : Array (Slot α)) (same : α → Checked Bool) (mask : Nat) :
    (steps position : Nat) → (reusable : Option Nat) → Checked (Probe α)
  | 0, _, _ => .error .endless
  | steps + 1, position, reusable => do
    match ← elementAt .danglingSlot slots position with
    | .empty => return .vacant (reusable.getD position)
    | .deleted =>
      checkedProbeFrom slots same mask steps ((position + 1) &&& mask)
        (reusable.or (some position))
    | .entry value =>
      if ← same value then return .found position value
      else checkedProbeFrom slots same mask steps ((position + 1) &&& mask) reusable

/-- Searches for an entry that is the `same`. -/
def checkedProbe (slots : Array (Slot α)) (hash : Nat) (same : α → Checked Bool) :
    Checked (Probe α) := do
  let mask ← decreased slots.size
  checkedProbeFrom slots same mask slots.size (hash &&& mask) none

/-- The rest of a search for an empty slot. -/
def checkedVacantFrom (slots : Array (Slot α)) (mask : Nat) :
    (steps position : Nat) → Checked Nat
  | 0, _ => .error .endless
  | steps + 1, position => do
    match ← elementAt .danglingSlot slots position with
    | .empty => return position
    | _ => checkedVacantFrom slots mask steps ((position + 1) &&& mask)

/-- The first empty slot of a search. -/
def checkedVacant (slots : Array (Slot α)) (hash : Nat) : Checked Nat := do
  let mask ← decreased slots.size
  checkedVacantFrom slots mask slots.size (hash &&& mask)

section Searching

variable {slots : Array (Slot α)} {hash : Nat}

/-- Masking goes on to the next slot, around the end of the array. -/
lemma mask_eq_nextPosition (h : slots.size.isPowerOfTwo) {position : Nat}
    (hlt : position < slots.size) :
    (position + 1) &&& (slots.size - 1) = nextPosition slots.size position := by
  rw [mask_eq_mod h, nextPosition]
  split
  next hlast => rw [hlast, Nat.mod_self]
  next hnot => exact Nat.mod_eq_of_lt (by omega)

lemma nextPosition_lt {count position : Nat} (h : position < count) :
    nextPosition count position < count := by
  rw [nextPosition]
  split <;> omega

/-- A search that gets an answer has no mishap. -/
lemma checkedProbeFrom_eq (hsize : slots.size.isPowerOfTwo) {same : α → Bool}
    {checkedSame : α → Checked Bool}
    (hsame : ∀ value, .entry value ∈ slots → checkedSame value = .ok (same value))
    {steps position : Nat} {reusable : Option Nat} (hlt : position < slots.size)
    (hends : probeFrom slots same steps position reusable ≠ .exhausted) :
    checkedProbeFrom slots checkedSame (slots.size - 1) steps position reusable =
      .ok (probeFrom slots same steps position reusable) := by
  induction steps generalizing position reusable with
  | zero => exact absurd rfl hends
  | succ steps ih =>
    have hslot := Array.getElem?_eq_getElem hlt
    have hnext := nextPosition_lt hlt
    rw [probeFrom, hslot] at hends
    rw [checkedProbeFrom, elementAt_eq_ok hslot, ok_bind, probeFrom, hslot,
      mask_eq_nextPosition hsize hlt]
    cases hs : slots[position] with
    | empty => rfl
    | deleted =>
      rw [hs] at hends
      exact ih hnext hends
    | entry value =>
      rw [hs] at hends
      have hmem : .entry value ∈ slots := hs ▸ Array.getElem_mem hlt
      dsimp only at hends ⊢
      rw [hsame value hmem, ok_bind]
      cases hvalue : same value with
      | true => rfl
      | false =>
        rw [hvalue] at hends
        exact ih hnext hends

/-- **Where a slot is empty no search has a mishap**, as long as the entries can be compared. -/
theorem checkedProbe_eq (h : Searchable slots) (hash : Nat) {same : α → Bool}
    {checkedSame : α → Checked Bool}
    (hsame : ∀ value, .entry value ∈ slots → checkedSame value = .ok (same value)) :
    checkedProbe slots hash checkedSame = .ok (probe slots hash same) := by
  rw [checkedProbe, decreased_eq_ok h.size_pos, ok_bind, mask_eq_mod h.size_isPowerOfTwo]
  exact checkedProbeFrom_eq h.size_isPowerOfTwo hsame (Nat.mod_lt _ h.size_pos)
    (probe_ne_exhausted h.empty_mem hash same)

lemma checkedVacantFrom_eq (hsize : slots.size.isPowerOfTwo) {steps position last : Nat}
    (hlt : position < slots.size) (hends : vacantFrom? slots steps position = some last) :
    checkedVacantFrom slots (slots.size - 1) steps position = .ok last := by
  induction steps generalizing position with
  | zero => cases hends
  | succ steps ih =>
    have hslot := Array.getElem?_eq_getElem hlt
    rw [vacantFrom?, hslot] at hends
    rw [checkedVacantFrom, elementAt_eq_ok hslot, ok_bind, mask_eq_nextPosition hsize hlt]
    cases hs : slots[position] with
    | empty =>
      rw [hs] at hends
      exact congrArg _ (Option.some.inj hends)
    | deleted =>
      rw [hs] at hends
      exact ih (nextPosition_lt hlt) hends
    | entry value =>
      rw [hs] at hends
      exact ih (nextPosition_lt hlt) hends

/-- An empty slot is found, and it is there. -/
lemma checkedVacant_eq (h : Searchable slots) (hash : Nat) :
    ∃ position, checkedVacant slots hash = .ok position ∧ vacant? slots hash = some position ∧
      slots[position]? = some .empty := by
  obtain ⟨position, hvacant, hempty, -⟩ := vacant?_eq_some h.empty_mem hash
  refine ⟨position, ?_, hvacant, hempty⟩
  rw [checkedVacant, decreased_eq_ok h.size_pos, ok_bind, mask_eq_mod h.size_isPowerOfTwo]
  exact checkedVacantFrom_eq h.size_isPowerOfTwo (Nat.mod_lt _ h.size_pos) hvacant

end Searching

/-! ## Entering -/

/-- Enters a number at the first empty slot of its search. -/
def checkedPlace (slots : Array (Slot Nat)) (hash number : Nat) : Checked (Array (Slot Nat)) := do
  let position ← checkedVacant slots hash
  checkedSet slots position (← slotNumber number)

/-- Enters the numbers of items, counted from `first` on, into `count` slots.  Items without a hash
are passed over.  The number behind that of the last item is given to none. -/
def checkedEnterAll (hashOf? : β → Option Nat) (items : Array β) (first count : Nat) :
    Checked (Array (Slot Nat)) :=
  Prod.fst <$> items.foldlM (fun (slots, number) item =>
    match hashOf? item with
    | some hash => do
      let slots ← checkedPlace slots hash number
      return (slots, number + 1)
    | none => .ok (slots, number + 1)) (emptySlots count, first)

section Entering

variable {slots : Array (Slot Nat)}

theorem checkedPlace_eq (h : Spacious slots) (hash : Nat) {number : Nat}
    (hword : number + 1 < wordBound - 1) :
    checkedPlace slots hash number = .ok (place slots hash number) := by
  obtain ⟨position, hchecked, hvacant, hempty⟩ := checkedVacant_eq h.searchable hash
  rw [checkedPlace, hchecked, ok_bind, slotNumber_eq_ok hword, ok_bind, checkedSet_eq_ok hempty,
    place, hvacant]

lemma occupied_place_le (slots : Array (Slot Nat)) (hash number : Nat) :
    occupied (place slots hash number) ≤ occupied slots + 1 := by
  rw [place]
  split
  next position _ =>
    by_cases hempty : slots[position]? = some .empty
    · rw [occupied_setIfInBounds_empty rfl hempty]
    · rw [occupied_setIfInBounds_taken rfl hempty]
      exact Nat.le_succ _
  next => exact Nat.le_succ _

/-- Entering the numbers of items, as the tables do it. -/
def enterFrom (hashOf? : β → Option Nat) (items : List β) (state : Array (Slot Nat) × Nat) :
    Array (Slot Nat) × Nat :=
  items.foldl (fun (slots, number) item =>
    match hashOf? item with
    | some hash => (place slots hash number, number + 1)
    | none => (slots, number + 1)) state

/-- There is room for all items to come, and a number for each. -/
structure HasRoom (hashOf? : β → Option Nat) (state : Array (Slot Nat) × Nat) (items : List β) :
    Prop where
  size : state.1.size.isPowerOfTwo
  room : (occupied state.1 + items.countP fun item => (hashOf? item).isSome) * 3 ≤
    state.1.size * 2
  word : state.2 + items.length < wordBound - 1

/-- An array that has room for all of some items stays spacious while they are entered. -/
lemma foldlM_checkedPlace {hashOf? : β → Option Nat} {items : List β} {number : Nat}
    (h : HasRoom hashOf? (slots, number) items) :
    (items.foldlM (fun (slots, number) item =>
      match hashOf? item with
      | some hash => do
        let slots ← checkedPlace slots hash number
        return (slots, number + 1)
      | none => .ok (slots, number + 1)) (slots, number) : Checked _) =
      .ok (enterFrom hashOf? items (slots, number)) := by
  refine (foldlM_eq_ok (HasRoom hashOf?) ?_ h).1
  rintro ⟨slots, number⟩ item items ⟨hsize, hroom, hword⟩
  rw [List.length_cons] at hword
  dsimp only at hsize hroom hword ⊢
  cases hhash : hashOf? item with
  | none =>
    rw [List.countP_cons_of_neg (by simp [hhash])] at hroom
    exact ⟨rfl, hsize, hroom, show number + 1 + items.length < _ by omega⟩
  | some hash =>
    rw [List.countP_cons_of_pos (by simp [hhash])] at hroom
    have hload := occupied_place_le slots hash number
    have hcount := size_place slots hash number
    dsimp only
    rw [checkedPlace_eq ⟨hsize, by omega⟩ hash (by omega)]
    refine ⟨rfl, hcount.symm ▸ hsize, ?_, ?_⟩
    · dsimp only
      omega
    · dsimp only
      omega

/-- **Entering all items into enough slots has no mishap.** -/
theorem checkedEnterAll_eq (hashOf? : β → Option Nat) {items : Array β} {first count : Nat}
    (hsize : count.isPowerOfTwo)
    (hroom : (items.toList.countP fun item => (hashOf? item).isSome) * 3 ≤ count * 2)
    (hword : first + items.size < wordBound - 1) :
    checkedEnterAll hashOf? items first count =
      .ok (enterFrom hashOf? items.toList (emptySlots count, first)).1 := by
  have hempty : HasRoom hashOf? (emptySlots count, first) items.toList := by
    constructor
    · rwa [size_emptySlots]
    · rwa [occupied_emptySlots, size_emptySlots, Nat.zero_add]
    · rwa [Array.length_toList]
  rw [checkedEnterAll, ← Array.foldlM_toList, foldlM_checkedPlace hempty]
  rfl

end Entering

end QuadBase.Index
