import QuadBase.Proofs.Dictionary.Layout
import QuadBase.Proofs.Index.Growing

/-!
# Keys and their codes

`Records.Issued r code key` says that a code has been issued for a key: the table has an entry for
the code, and the key is read at its offset.  `Records.Sound` is the invariant that makes this a
bijection, with the two directions as `find?_eq_some_iff` and `read_eq_ok_iff_issued`.

* `Sound.insert_of_issued`, `Sound.insert_of_refused`, `Sound.insert_of_prepared` — an insertion step
  by step: the key is found, there is no room for it, or it gets a record.
* `Sound.insert_cases` — what an insertion can do: it finds the key, fails and changes nothing, or
  issues one more code.
-/

namespace QuadBase.Dictionary.Records

open QuadBase.Index

variable [Text.Hasher] {r s : Records} {code other : Code} {key found : Key}

/-! ## Issued codes -/

/-- The key has been given this code. -/
structure Issued (r : Records) (code : Code) (key : Key) : Prop where
  entry : ∃ mark : RecordMark, .entry mark ∈ r.slots ∧ mark.code = code
  keyAt? : r.keyAt? code = some key

omit [Text.Hasher] in
/-- A code belongs to one key only. -/
lemma Issued.key_unique (h : r.Issued code key) (h' : r.Issued code found) : key = found :=
  Option.some.inj (h.keyAt?.symm.trans h'.keyAt?)

/-- Every entry leads to a record that has its hash, and no two of them lead to the same key. -/
structure Sound (r : Records) : Prop where
  laid : r.Laid
  roomy : Roomy (fun mark : RecordMark => mark.hash.toNat) r.slots r.count
  readable : ∀ mark : RecordMark, .entry mark ∈ r.slots →
    ∃ key : Key, key.Normal ∧ r.keyAt? mark.code = some key ∧ mark.hash = key.hash
  injective : ∀ {code other : Code} {key : Key}, r.Issued code key → r.Issued other key →
    code = other

omit [Text.Hasher] in
lemma not_issued_create (capacity primaryLimit : Nat) :
    ¬ (create capacity primaryLimit).Issued code key := by
  rintro ⟨⟨mark, hmem, -⟩, -⟩
  exact entry_notMem_emptySlots hmem

lemma create_sound (capacity primaryLimit : Nat) : (create capacity primaryLimit).Sound where
  laid := ⟨Arena.chunked_empty.write 0 [0], Arena.chunked_empty⟩
  roomy := by
    refine roomy_emptySlots ?_ _
    have hle := le_powerOfTwoFrom (max capacity leastSlots)
    simp only [leastSlots] at *
    omega
  readable mark hmem := absurd hmem entry_notMem_emptySlots
  injective h _ := absurd h (not_issued_create capacity primaryLimit)

/-! ## Lookups -/

/-- **The code of a key is the code that was issued for it.** -/
theorem Sound.find?_eq_some_iff (h : r.Sound) : r.find? key = some code ↔ r.Issued code key := by
  rw [find?]
  constructor
  · intro hfind
    split at hfind
    next position mark hsearch =>
      obtain rfl := Option.some.inj hfind
      obtain ⟨hslot, hsame⟩ := probe_found_mem hsearch
      rw [Bool.and_eq_true, holds_iff h.laid] at hsame
      exact ⟨⟨mark, Array.mem_of_getElem? hslot, rfl⟩, hsame.2⟩
    next => cases hfind
  · intro hissued
    obtain ⟨mark, hmem, rfl⟩ := hissued.entry
    obtain ⟨own, -, hown, hhash⟩ := h.readable mark hmem
    obtain rfl : own = key := Option.some.inj (hown.symm.trans hissued.keyAt?)
    have hsame : (mark.hash == own.hash && r.holds mark.code own) = true := by
      rw [Bool.and_eq_true, holds_iff h.laid, beq_iff_eq]
      exact ⟨hhash, hissued.keyAt?⟩
    obtain ⟨position, entry, hsearch⟩ := h.roomy.placed.probe_found h.roomy.empty_mem
      (fun mark => mark.hash == own.hash && r.holds mark.code own) hmem hsame
    rw [hhash] at hsearch
    obtain ⟨hslot, hfound⟩ := probe_found_mem hsearch
    rw [Bool.and_eq_true, holds_iff h.laid] at hfound
    have hentry : r.Issued entry.code own :=
      ⟨⟨entry, Array.mem_of_getElem? hslot, rfl⟩, hfound.2⟩
    rw [search, hsearch]
    exact congrArg some (h.injective hentry hissued)

lemma Sound.find?_eq_none_iff (h : r.Sound) :
    r.find? key = none ↔ ∀ code, ¬ r.Issued code key := by
  rw [Option.eq_none_iff_forall_ne_some]
  exact forall_congr' fun code => not_congr h.find?_eq_some_iff

/-- **Reading succeeds for issued codes only, and gives the key that got the code.** -/
theorem Sound.read_eq_ok_iff_issued (h : r.Sound) :
    r.read code = .ok key ↔ r.Issued code key := by
  rw [read_eq_ok_iff, h.find?_eq_some_iff]
  exact ⟨And.right, fun hissued => ⟨hissued.keyAt?, hissued⟩⟩

/-- No search comes around without an answer. -/
lemma Sound.search_ne_exhausted (h : r.Sound) (hash : UInt32) (key : Key) :
    r.search hash key ≠ .exhausted :=
  probe_ne_exhausted h.roomy.empty_mem _ _

/-- The search for a key without code ends at a free slot. -/
lemma Sound.search_vacant (h : r.Sound) (hnew : r.find? key = none) :
    ∃ position, r.search key.hash key = .vacant position := by
  refine Probe.exists_vacant (h.search_ne_exhausted _ _) fun position mark hsearch => ?_
  rw [find?, hsearch] at hnew
  cases hnew

/-! ## Issuing a code -/

omit [Text.Hasher] in
lemma regrow_eq (slots : Array (Slot RecordMark)) :
    regrow slots = regrown (fun mark : RecordMark => mark.hash.toNat) slots := by
  rw [regrow, regrown]
  exact foldl_eq_placeAll (fun _ _ => rfl) (fun _ => rfl) (fun _ => rfl) _

omit [Text.Hasher] in
lemma write_table (r : Records) (draft : Draft) (mark : RecordMark) (position : Nat) :
    (r.write draft mark position).slots =
        entered (fun mark : RecordMark => mark.hash.toNat) r.slots r.count position mark ∧
      (r.write draft mark position).count = r.count + 1 := by
  rw [entered, ← regrow_eq]
  obtain ⟨bytes, outside⟩ := draft
  cases outside with
  | none => exact ⟨rfl, rfl⟩
  | some spilled => exact ⟨rfl, rfl⟩

/-- **Issuing a code keeps the table sound and all codes valid.** -/
theorem Sound.write (h : r.Sound) (hkey : key.Normal) (hnew : r.find? key = none) {draft : Draft}
    {inlineLimit position : Nat} (hdraft : key.draft inlineLimit = .ok draft)
    (hcode : r.nextCode draft = .ok code)
    (hsearch : r.search key.hash key = .vacant position) :
    (r.write draft ⟨code, key.hash⟩ position).Sound ∧
      ∀ other found, (r.write draft ⟨code, key.hash⟩ position).Issued other found ↔
        (other = code ∧ found = key) ∨ r.Issued other found := by
  have hnone := h.find?_eq_none_iff.1 hnew
  obtain ⟨hslots, hcount⟩ := write_table r draft ⟨code, key.hash⟩ position
  obtain ⟨hroomy, hmem⟩ := h.roomy.enter ⟨code, key.hash⟩ hsearch
  have hlaid := h.laid.write draft ⟨code, key.hash⟩ position
  have hextends := extends_write h.laid draft ⟨code, key.hash⟩ position
  have hwritten := keyAt?_write h.laid hkey hdraft hcode ⟨code, key.hash⟩ position
  rw [← hslots] at hroomy hmem
  rw [← hcount] at hroomy
  generalize r.write draft ⟨code, key.hash⟩ position = s at *
  -- the key of an old entry is read as before
  have hstay : ∀ mark : RecordMark, .entry mark ∈ r.slots →
      ∃ found : Key, found.Normal ∧ r.keyAt? mark.code = some found ∧
        s.keyAt? mark.code = some found ∧ mark.hash = found.hash := fun mark hold => by
    obtain ⟨found, hnormal, hfound, hhash⟩ := h.readable mark hold
    exact ⟨found, hnormal, hfound, keyAt?_mono hextends h.laid hlaid hfound, hhash⟩
  have hissued : ∀ other found, s.Issued other found ↔
      (other = code ∧ found = key) ∨ r.Issued other found := by
    intro other found
    constructor
    · rintro ⟨⟨mark, hmark, rfl⟩, hfound⟩
      rcases (hmem mark).1 hmark with rfl | hold
      · exact Or.inl ⟨rfl, Option.some.inj (hfound.symm.trans hwritten)⟩
      · obtain ⟨own, -, hown, hown', -⟩ := hstay mark hold
        obtain rfl := Option.some.inj (hfound.symm.trans hown')
        exact Or.inr ⟨⟨mark, hold, rfl⟩, hown⟩
    · rintro (⟨rfl, rfl⟩ | hold)
      · exact ⟨⟨_, (hmem _).2 (Or.inl rfl), rfl⟩, hwritten⟩
      · obtain ⟨mark, hmark, hsame⟩ := hold.entry
        exact ⟨⟨mark, (hmem mark).2 (Or.inr hmark), hsame⟩,
          keyAt?_mono hextends h.laid hlaid hold.keyAt?⟩
  refine ⟨⟨hlaid, hroomy, ?_, ?_⟩, hissued⟩
  · intro mark hmark
    rcases (hmem mark).1 hmark with rfl | hold
    · exact ⟨key, hkey, hwritten, rfl⟩
    · obtain ⟨own, hnormal, -, hown, hhash⟩ := hstay mark hold
      exact ⟨own, hnormal, hown, hhash⟩
  · intro one two found hone htwo
    rcases (hissued one found).1 hone with ⟨rfl, rfl⟩ | hold <;>
      rcases (hissued two found).1 htwo with ⟨rfl, hsame⟩ | hold'
    · rfl
    · exact absurd hold' (hnone two)
    · exact absurd (hsame ▸ hold) (hnone one)
    · exact h.injective hold hold'

/-! ## Insertions -/

/-- The draft of a new key and the code that it gets, if there is room. -/
def prepare (r : Records) (key : Key) (inlineLimit : Nat) : Except DictionaryError (Draft × Code) :=
  (key.draft inlineLimit).bind fun draft => (r.nextCode draft).map (draft, ·)

omit [Text.Hasher] in
lemma prepare_eq_ok {inlineLimit : Nat} {draft : Draft}
    (h : r.prepare key inlineLimit = .ok (draft, code)) :
    key.draft inlineLimit = .ok draft ∧ r.nextCode draft = .ok code := by
  rw [prepare] at h
  cases hdraft : key.draft inlineLimit with
  | error e =>
    rw [hdraft] at h
    cases h
  | ok own =>
    rw [hdraft, Except.bind] at h
    cases hcode : r.nextCode own with
    | error e =>
      rw [hcode] at h
      cases h
    | ok found =>
      rw [hcode] at h
      obtain ⟨rfl, rfl⟩ := Prod.mk.inj (Except.ok.inj h)
      exact ⟨rfl, hcode⟩

variable {inlineLimit : Nat}

/-- A known key has its code. -/
lemma Sound.insert_of_issued (h : r.Sound) (hissued : r.Issued code key) :
    r.insert key inlineLimit = (.ok code, r) := by
  have hfind := h.find?_eq_some_iff.2 hissued
  rw [find?] at hfind
  split at hfind
  next position mark hsearch =>
    obtain rfl := Option.some.inj hfind
    simp only [insert, hsearch]
  next => cases hfind

/-- A new key is refused for want of room. -/
lemma Sound.insert_of_refused (h : r.Sound) (hnew : ∀ other, ¬ r.Issued other key)
    {e : DictionaryError} (hprepare : r.prepare key inlineLimit = .error e) :
    r.insert key inlineLimit = (.error e, r) := by
  obtain ⟨position, hsearch⟩ := h.search_vacant (h.find?_eq_none_iff.2 hnew)
  rw [prepare] at hprepare
  simp only [insert, hsearch, hprepare]

/-- A new key gets a record. -/
lemma Sound.insert_of_prepared (h : r.Sound) (hnew : ∀ other, ¬ r.Issued other key) {draft : Draft}
    (hprepare : r.prepare key inlineLimit = .ok (draft, code)) :
    ∃ position, r.search key.hash key = .vacant position ∧
      r.insert key inlineLimit = (.ok code, r.write draft ⟨code, key.hash⟩ position) := by
  obtain ⟨position, hsearch⟩ := h.search_vacant (h.find?_eq_none_iff.2 hnew)
  refine ⟨position, hsearch, ?_⟩
  rw [prepare] at hprepare
  simp only [insert, hsearch, hprepare]

/-- **The steps of an insertion.**  A known key has its code; a new one is refused for want of room,
or written. -/
theorem Sound.insert_steps (h : r.Sound) (key : Key) (inlineLimit : Nat) :
    (∃ code, r.Issued code key ∧ r.insert key inlineLimit = (.ok code, r)) ∨
    (∃ e, (∀ code, ¬ r.Issued code key) ∧ r.prepare key inlineLimit = .error e ∧
      r.insert key inlineLimit = (.error e, r)) ∨
    (∃ draft code position, (∀ other, ¬ r.Issued other key) ∧
      r.prepare key inlineLimit = .ok (draft, code) ∧ r.search key.hash key = .vacant position ∧
      r.insert key inlineLimit = (.ok code, r.write draft ⟨code, key.hash⟩ position)) := by
  by_cases hknown : ∃ code, r.Issued code key
  · obtain ⟨code, hissued⟩ := hknown
    exact Or.inl ⟨code, hissued, h.insert_of_issued hissued⟩
  · rw [not_exists] at hknown
    right
    cases hprepare : r.prepare key inlineLimit with
    | error e => exact Or.inl ⟨e, hknown, rfl, h.insert_of_refused hknown hprepare⟩
    | ok prepared =>
      obtain ⟨draft, code⟩ := prepared
      obtain ⟨position, hsearch, hinsert⟩ := h.insert_of_prepared hknown hprepare
      exact Or.inr ⟨draft, code, position, hknown, rfl, hsearch, hinsert⟩

/-- **What an insertion can do.** -/
theorem Sound.insert_cases (h : r.Sound) (hkey : key.Normal) (inlineLimit : Nat) :
    (∃ code, r.Issued code key ∧ r.insert key inlineLimit = (.ok code, r)) ∨
    (∃ e, (∀ code, ¬ r.Issued code key) ∧ r.insert key inlineLimit = (.error e, r)) ∨
    (∃ code s, (∀ other, ¬ r.Issued other key) ∧ r.insert key inlineLimit = (.ok code, s) ∧
      s.Sound ∧ ∀ other found, s.Issued other found ↔
        (other = code ∧ found = key) ∨ r.Issued other found) := by
  rcases h.insert_steps key inlineLimit with hknown | ⟨e, hnone, -, hinsert⟩ |
    ⟨draft, code, position, hnone, hprepare, hsearch, hinsert⟩
  · exact Or.inl hknown
  · exact Or.inr (Or.inl ⟨e, hnone, hinsert⟩)
  · obtain ⟨hdraft, hcode⟩ := prepare_eq_ok hprepare
    obtain ⟨hsound, hissued⟩ :=
      h.write hkey (h.find?_eq_none_iff.2 hnone) hdraft hcode hsearch
    exact Or.inr (Or.inr ⟨code, _, hnone, hinsert, hsound, hissued⟩)

end QuadBase.Dictionary.Records
