import QuadBase.Proofs.Dictionary.Issuing
import QuadBase.Proofs.Dictionary.Words
import QuadBase.Proofs.Index.Ending
import QuadBase.Proofs.Store.Elementary

/-!
# The four tables

Vocabularies, records, terms and statements are found through four tables that grow at different
moments: before or after the new entry is counted, into twice as many slots or, to get rid of
deletion markers, into as many.  All of them keep a power of two of slots and leave a third of them
empty, and so do the arrays that they are moved into, at every moment of the move.

* `Terminating` — an array with these properties, in which every search ends.
* `Vocabulary.Terminating`, `Records.Terminating`, `TermTable.Terminating`,
  `Statements.Terminating` — what this means for each table and for the arrays it is moved into.
* `searches_end` — **all searches in a reachable dictionary or store end.**
-/

namespace QuadBase

open QuadBase.Index QuadBase.Rdf

/-- An array of slots in working order. -/
structure Index.Terminating {α : Type} (slots : Array (Slot α)) : Prop extends
  Spacious slots, SearchesEnd slots

lemma Index.Spacious.terminating {α : Type} {slots : Array (Slot α)} (h : Spacious slots) :
    Terminating slots :=
  ⟨h, h.searchable.searchesEnd⟩

namespace Dictionary

/-! ## Vocabularies -/

namespace Vocabulary

variable [Text.Hasher] {v : Vocabulary}

/-- Searches for texts end, also in the array that the table is moved into when it has to grow. -/
structure Terminating (v : Vocabulary) : Prop where
  slots : Index.Terminating v.slots
  /-- The first so many slots have been moved. -/
  regrowing : ∀ moved,
    Index.Terminating (regrowing (fun mark : Mark => mark.hash.toNat) v.slots moved)
  regrow_eq : regrow v.slots =
    Index.regrowing (fun mark : Mark => mark.hash.toNat) v.slots v.slots.size

lemma Sound.terminating (h : v.Sound) (hsize : v.slots.size.isPowerOfTwo) : v.Terminating where
  slots := (h.roomy.spacious hsize).terminating
  regrowing moved := ((h.roomy.spacious hsize).regrowing _ moved).terminating
  regrow_eq := (Vocabulary.regrow_eq v.slots).trans (regrowing_size _ v.slots).symm

omit [Text.Hasher] in
lemma isPowerOfTwo_empty : empty.slots.size.isPowerOfTwo :=
  ⟨6, by simp [empty, initialSlots]⟩

lemma Sound.isPowerOfTwo_intern (h : v.Sound) (hsize : v.slots.size.isPowerOfTwo)
    (text : String) : (v.intern text).2.slots.size.isPowerOfTwo := by
  rw [Vocabulary.intern]
  split
  · exact hsize
  · split
    · exact hsize
    · rw [add_eq]
      exact h.roomy.isPowerOfTwo_entered hsize _ _
  · exact hsize

/-- Interning texts keeps the table in working order. -/
lemma ofList_terminating (texts : List String) : (ofList texts).Terminating := by
  have hall : ∀ v : Vocabulary, v.Sound → v.slots.size.isPowerOfTwo →
      (texts.foldl (fun v text => (v.intern text).2) v).slots.size.isPowerOfTwo := by
    induction texts with
    | nil => exact fun _ _ hsize => hsize
    | cons text texts ih =>
      exact fun v hv hsize => ih _ (hv.intern rfl).1 (hv.isPowerOfTwo_intern hsize text)
  exact (ofList_sound texts).terminating (hall empty empty_sound isPowerOfTwo_empty)

end Vocabulary

/-! ## Records -/

namespace Records

variable [Text.Hasher] {r : Records}

/-- Searches for keys end, also in the array that the table is moved into when it has to grow. -/
structure Terminating (r : Records) : Prop where
  slots : Index.Terminating r.slots
  /-- The first so many slots have been moved. -/
  regrowing : ∀ moved,
    Index.Terminating (regrowing (fun mark : RecordMark => mark.hash.toNat) r.slots moved)
  regrow_eq : regrow r.slots =
    Index.regrowing (fun mark : RecordMark => mark.hash.toNat) r.slots r.slots.size

lemma Sound.terminating (h : r.Sound) (hsize : r.slots.size.isPowerOfTwo) : r.Terminating where
  slots := (h.roomy.spacious hsize).terminating
  regrowing moved := ((h.roomy.spacious hsize).regrowing _ moved).terminating
  regrow_eq := (Records.regrow_eq r.slots).trans (regrowing_size _ r.slots).symm

omit [Text.Hasher] in
lemma isPowerOfTwo_slotsFor {initial : Nat} (h : initial.isPowerOfTwo) (count : Nat) :
    (slotsFor initial count).isPowerOfTwo := by
  induction count with
  | zero => exact h
  | succ count ih =>
    rw [slotsFor]
    split
    · exact isPowerOfTwo_double ih
    · exact ih

end Records

namespace TermDictionary

variable [Text.Hasher]

/-- The tables of every reachable dictionary. -/
theorem tables_serveAll (config : Config) (requests : List Request) :
    (∀ name, (((create config).serveAll requests).vocabulary name).Terminating) ∧
      ((create config).serveAll requests).records.Terminating := by
  have hcreate := create_sound config
  have hd : ((create config).serveAll requests).Sound := (hcreate.serveAll requests).sound
  constructor
  · intro name
    have hstart : ∀ other, ((create config).vocabulary other).slots.size.isPowerOfTwo := by
      intro other
      cases other with
      | namespaces => exact Vocabulary.isPowerOfTwo_empty
      | languages => exact Vocabulary.isPowerOfTwo_empty
      | datatypes =>
        simp only [vocabulary, create, initialDatatypeVocabulary]
        exact (Vocabulary.ofList_terminating initialDatatypes).slots.size_isPowerOfTwo
    have hsize := hcreate.vocabulary_serveAll
      (fun hv hsize text => hv.isPowerOfTwo_intern hsize text) hstart requests name
    exact (hd.worded.vocabulary name).terminating hsize
  · refine hd.records.terminating ?_
    rw [slots_size_serveAll config requests]
    exact Records.isPowerOfTwo_slotsFor (isPowerOfTwo_powerOfTwoFrom _) _

end TermDictionary

end Dictionary

namespace Store

/-! ## Terms -/

namespace TermTable

variable [Text.Hasher] {t : TermTable}

/-- Searches for terms end, also in the array that the table is moved into when a new term makes it
grow. -/
structure Terminating (t : TermTable) : Prop where
  slots : Index.Terminating t.slots
  /-- The first so many terms have been entered, the new one being the last. -/
  growing : ∀ new entered,
    Index.Terminating (enterAll ((t.terms.push new).take entered) (2 * t.slots.size))

/-- The table after some more terms. -/
def internAll (t : TermTable) (terms : List Term) : TermTable :=
  terms.foldl (fun t term => (t.intern term).2) t

/-- The table is never full. -/
lemma Sound.spacious (h : t.Sound) (hsize : t.slots.size.isPowerOfTwo) : Spacious t.slots :=
  ⟨hsize, Nat.le_trans (Nat.mul_le_mul_right 3 h.load) h.uncrowded⟩

lemma Sound.terminating (h : t.Sound) (hsize : t.slots.size.isPowerOfTwo) : t.Terminating where
  slots := (h.spacious hsize).terminating
  growing new entered := by
    have huncrowded := h.uncrowded
    have hcount : ((t.terms.push new).take entered).size ≤ t.terms.size + 1 := by
      simp only [Array.take_eq_extract, Array.size_extract, Array.size_push]
      omega
    have hfilled := enterAll_filled ⟨(t.terms.push new).take entered, t.slots⟩
      (2 * t.slots.size) (by dsimp only; omega)
    refine (hfilled.spacious (isPowerOfTwo_double hsize) ?_).terminating
    rw [List.length_range']
    dsimp only
    omega

lemma size_enterAll (terms : Array Term) (count : Nat) : (enterAll terms count).size = count := by
  rw [enterAll, size_foldl fun _ _ => size_place _ _ _]
  exact size_emptySlots count

lemma isPowerOfTwo_intern (hsize : t.slots.size.isPowerOfTwo) (term : Term) :
    (t.intern term).2.slots.size.isPowerOfTwo := by
  rw [intern]
  split
  · exact hsize
  · dsimp only
    split
    · rw [add]
      dsimp only
      split
      · rw [size_place, size_enterAll]
        exact isPowerOfTwo_double hsize
      · rw [Array.size_setIfInBounds]
        exact hsize
    · exact hsize
  · exact hsize

lemma Sound.intern (h : t.Sound) (term : Term) : (t.intern term).2.Sound := by
  rcases h.intern_cases term with ⟨handle, -, heq⟩ | ⟨-, -, t', hsound, -, heq⟩ | ⟨-, -, heq⟩
  · rwa [heq]
  · rwa [heq]
  · rwa [heq]

lemma internAll_terminating (h : t.Sound) (hsize : t.slots.size.isPowerOfTwo)
    (terms : List Term) : (t.internAll terms).Terminating := by
  induction terms generalizing t with
  | nil => exact h.terminating hsize
  | cons term terms ih => exact ih (h.intern term) (isPowerOfTwo_intern hsize term)

end TermTable

/-! ## Statements -/

namespace Statements

variable [Text.Hasher] {s : Statements}

/-- Searches for statements end, also in the array that the index is rebuilt in when a new statement
would crowd it. -/
structure Terminating (s : Statements) : Prop where
  index : Index.Terminating s.index
  /-- The first so many records have been looked at. -/
  rebuilding : ∀ entered,
    Index.Terminating (enterAll (s.records.take entered) (rebuiltSize s.live s.index.size))

omit [Text.Hasher] in
lemma isPowerOfTwo_rebuiltSize {count : Nat} (h : count.isPowerOfTwo) (live : Nat) :
    (rebuiltSize live count).isPowerOfTwo := by
  rw [rebuiltSize]
  split
  · exact isPowerOfTwo_double h
  · exact h

omit [Text.Hasher] in
lemma le_rebuiltSize (live count : Nat) : count ≤ rebuiltSize live count := by
  rw [rebuiltSize]
  split <;> omega

/-- The index is never full. -/
lemma Sound.spacious (h : s.Sound) (hsize : s.index.size.isPowerOfTwo) : Spacious s.index :=
  ⟨hsize, h.used_eq ▸ h.uncrowded⟩

lemma Sound.terminating (h : s.Sound) (hsize : s.index.size.isPowerOfTwo) : s.Terminating where
  index := (h.spacious hsize).terminating
  rebuilding entered := by
    have hused := h.card_le_used
    have huncrowded := h.uncrowded
    have hle := le_rebuiltSize s.live s.index.size
    have hsub : liveSet (s.records.take entered) ⊆ liveSet s.records := by
      intro id hid
      rw [mem_liveSet, isLiveAt, Option.any_eq_true] at hid ⊢
      obtain ⟨record, hrecord, hlive⟩ := hid
      rw [Array.take_eq_extract, Array.getElem?_extract] at hrecord
      split at hrecord
      · exact ⟨record, by rwa [Nat.zero_add] at hrecord, hlive⟩
      · cases hrecord
    have hcard := Finset.card_le_card hsub
    obtain ⟨live, hnodup, hset, hfilled⟩ :=
      enterAll_filled { s with records := s.records.take entered }
        (show (liveSet (s.records.take entered)).card ≤ rebuiltSize s.live s.index.size by omega)
    refine (hfilled.spacious (isPowerOfTwo_rebuiltSize hsize _) ?_).terminating
    rw [← List.toFinset_card_of_nodup hnodup, hset]
    dsimp only
    omega

lemma size_enterAll (records : Array Statement) (count : Nat) :
    (enterAll records count).size = count := by
  rw [enterAll, size_foldl]
  · exact size_emptySlots count
  · intro state record
    dsimp only
    split
    · exact size_place _ _ _
    · rfl

lemma isPowerOfTwo_rebuildIndex (hsize : s.index.size.isPowerOfTwo) :
    s.rebuildIndex.index.size.isPowerOfTwo := by
  change (enterAll s.records (rebuiltSize s.live s.index.size)).size.isPowerOfTwo
  rw [size_enterAll]
  exact isPowerOfTwo_rebuiltSize hsize _

lemma isPowerOfTwo_makeRoom (hsize : s.index.size.isPowerOfTwo) (terms : PerPosition Nat)
    (position : Nat) : (s.makeRoom terms position).1.index.size.isPowerOfTwo := by
  rw [makeRoom]
  split
  · exact isPowerOfTwo_rebuildIndex hsize
  · exact hsize

lemma isPowerOfTwo_insert (hsize : s.index.size.isPowerOfTwo) (terms : PerPosition Nat) :
    (s.insert terms).2.index.size.isPowerOfTwo := by
  rw [insert]
  split
  · exact hsize
  · exact hsize
  · next position _ =>
    have hroom := isPowerOfTwo_makeRoom hsize terms position
    cases hmake : s.makeRoom terms position with
    | mk s' position' =>
      rw [hmake] at hroom
      dsimp only
      rcases takeNumber_cases s' with ⟨id, free, -, heq⟩ | ⟨-, -, heq⟩ | ⟨-, -, heq⟩
      · rw [heq]
        change (s'.index.setIfInBounds _ _).size.isPowerOfTwo
        rwa [Array.size_setIfInBounds]
      · rw [heq]
        change (s'.index.setIfInBounds _ _).size.isPowerOfTwo
        rwa [Array.size_setIfInBounds]
      · rw [heq]
        exact hroom

lemma size_index_remove (s : Statements) (id : Nat) :
    (s.remove id).2.index.size = s.index.size := by
  rw [remove]
  split
  · rfl
  · split
    · split
      · dsimp only
        split
        · rw [sweep_eq]
          exact Array.size_setIfInBounds
        · exact Array.size_setIfInBounds
      · rfl
    · rfl

end Statements

/-! ## Stores -/

namespace QuadStore

variable [Text.Hasher] {s : QuadStore}

/-- The tables of a store have a power of two of slots each, whatever happens to it. -/
lemma Occurs.isPowerOfTwo (h : s.Occurs) :
    s.terms.slots.size.isPowerOfTwo ∧ s.statements.index.size.isPowerOfTwo := by
  induction h with
  | create config =>
    constructor
    · simp only [QuadStore.create, TermTable.create, size_emptySlots]
      exact isPowerOfTwo_powerOfTwoFrom _
    · simp only [QuadStore.create, Statements.create, size_emptySlots]
      exact isPowerOfTwo_powerOfTwoFrom _
  | internTerm _ term ih => exact ⟨TermTable.isPowerOfTwo_intern ih.1 term, ih.2⟩
  | insertHandles _ _ ih => exact ⟨ih.1, Statements.isPowerOfTwo_insert ih.2 _⟩
  | removeId _ id ih =>
    refine ⟨ih.1, ?_⟩
    change (Statements.remove _ id).2.index.size.isPowerOfTwo
    rw [Statements.size_index_remove]
    exact ih.2
  | clear _ ih =>
    refine ⟨ih.1, ?_⟩
    simp only [QuadStore.clear, Statements.clear, size_emptySlots]
    exact ih.2
  | withNamespaces _ _ ih => exact ih

/-- The tables of every store that occurs. -/
theorem Occurs.tables (h : s.Occurs) (terms : List Term) :
    (s.terms.internAll terms).Terminating ∧ s.statements.Terminating :=
  ⟨TermTable.internAll_terminating h.sound.terms h.isPowerOfTwo.1 terms,
    h.sound.statements.terminating h.isPowerOfTwo.2⟩

end QuadStore

end Store

/-- **All searches end.**  In a reachable dictionary and in a reachable store, however they have
been set up, every loop over the slots of a table ends within one pass over them, whatever is looked
for and whichever hashes collide.  This holds in the middle of an operation as well: while a table
is moved into another array, and when an addition has entered some of its terms only. -/
theorem searches_end [Text.Hasher] :
    (∀ (config : Dictionary.Config) (requests : List Dictionary.Request),
      let d := (Dictionary.TermDictionary.create config).serveAll requests
      (∀ name, (d.vocabulary name).Terminating) ∧ d.records.Terminating) ∧
    (∀ texts : List String, (Dictionary.Vocabulary.ofList texts).Terminating) ∧
    ∀ (config : Store.Config) (operations : List Store.Operation) (terms : List Term),
      let s := Store.reached config operations
      (s.terms.internAll terms).Terminating ∧ s.statements.Terminating :=
  ⟨Dictionary.TermDictionary.tables_serveAll, Dictionary.Vocabulary.ofList_terminating,
    fun config operations terms => (Store.QuadStore.reached_occurs config operations).tables terms⟩

end QuadBase
