import Mathlib.Data.List.Nodup
import Mathlib.Order.Bounds.Basic
import QuadBase.Dictionary.Config
import QuadBase.Proofs.Dictionary.Records

/-!
# Records in order of issue

The arenas hold the records in the order in which their codes have been issued, and nothing else.  A
record starts at the first multiple of four behind the one before it, and a value that is kept
outside follows the one before it without a gap.  The slots of the table hold each record once.

`Records.Layout` says this of records and the list of their codes and keys.

* `Layout.create` — without records there is nothing but the byte that takes offset zero.
* `Layout.write` — **a new record goes behind the others**, in the arenas and in the list.
-/

namespace QuadBase.Dictionary

open QuadBase.Index

/-- A record: its code and its key. -/
structure Entry where
  code : Code
  key : Key

namespace Entry

/-- What the table keeps of a record. -/
def mark [Text.Hasher] (entry : Entry) : RecordMark :=
  ⟨entry.code, entry.key.hash⟩

/-- The offset behind a record. -/
def stop (inlineLimit : Nat) (entry : Entry) : Nat :=
  entry.code.offset + entry.key.recordSize inlineLimit

/-- The offset behind the last of some records.  The first byte belongs to none. -/
def frontier (inlineLimit : Nat) (entries : List Entry) : Nat :=
  (entries.getLast?.map (stop inlineLimit)).getD 1

/-- The values that some records keep outside, each behind its length. -/
def outside (inlineLimit : Nat) (entries : List Entry) : List UInt8 :=
  entries.flatMap fun entry => entry.key.spilled inlineLimit

lemma frontier_concat (inlineLimit : Nat) (entries : List Entry) (entry : Entry) :
    frontier inlineLimit (entries ++ [entry]) = entry.stop inlineLimit := by
  rw [frontier, List.getLast?_concat]
  rfl

/-- A record that starts behind another one has the greater code. -/
lemma word_lt_of_stop_le {inlineLimit : Nat} {entry next : Entry}
    (h : entry.stop inlineLimit ≤ next.code.offset) : entry.code.word < next.code.word := by
  have hpos : 0 < entry.key.recordSize inlineLimit := Key.recordSize_pos
  rw [stop, Code.offset, Code.offset, Code.alignment] at h
  rw [UInt32.lt_iff_toNat_lt]
  omega

lemma outside_concat (inlineLimit : Nat) (entries : List Entry) (entry : Entry) :
    outside inlineLimit (entries ++ [entry]) =
      outside inlineLimit entries ++ entry.key.spilled inlineLimit := by
  rw [outside, List.flatMap_append, List.flatMap_singleton]
  rfl

end Entry

namespace Records

variable [Text.Hasher] {r s : Records} {code : Code} {key : Key} {config : Config}
  {entries : List Entry}

/-- The number of slots of a table that has grown with its records, one by one. -/
def slotsFor (initial : Nat) : (count : Nat) → Nat
  | 0 => initial
  | count + 1 =>
    if isCrowded (count + 1) (slotsFor initial count) then 2 * slotsFor initial count
    else slotsFor initial count

/-- The arenas and the table hold these records, in this order, and nothing else. -/
structure Layout (config : Config) (r : Records) (entries : List Entry) : Prop where
  /-- A record starts at the first multiple of four behind the records before it. -/
  offset : ∀ {before after : List Entry} {entry : Entry}, entries = before ++ entry :: after →
    IsLeast {offset | Code.alignment ∣ offset ∧ Entry.frontier config.inlineLimit before ≤ offset}
      entry.code.offset
  /-- It leads to its value, which lies behind the values of the records before it. -/
  record : ∀ {before after : List Entry} {entry : Entry}, entries = before ++ entry :: after →
    r.primary.Has entry.code.offset (entry.key.record config.inlineLimit
      (Entry.outside config.inlineLimit before).length)
  indexed : ∀ entry ∈ entries, 1 ≤ entry.code.word.toNat ∧ entry.code.word.toNat ≤ 0xDFFFFFFF
  increasing : entries.Pairwise fun one two => one.code.word < two.code.word
  /-- No two records overlap. -/
  apart : entries.Pairwise fun one two => one.stop config.inlineLimit ≤ two.code.offset
  /-- The primary arena ends behind the last record, and within the limit. -/
  primary_size : r.primary.size = Entry.frontier config.inlineLimit entries
  bounded : r.primary.size ≤ max 1 (min config.primaryLimit Code.maxOffset)
  limit : r.primaryLimit = min config.primaryLimit Code.maxOffset
  /-- The secondary arena is made of the values that are kept outside, without gaps. -/
  secondary : r.secondary.toList = Entry.outside config.inlineLimit entries
  secondary_size : r.secondary.size = (Entry.outside config.inlineLimit entries).length
  count : r.count = entries.length
  /-- The table holds the mark of each record once. -/
  slots : (Index.entries r.slots).Perm (entries.map Entry.mark)
  slots_size : r.slots.size =
    slotsFor (powerOfTwoFrom (max config.tableCapacity leastSlots)) r.count
  keys : (entries.map Entry.key).Nodup
  /-- Nothing else is read. -/
  read : ∀ {code key}, r.read code = .ok key ↔ ⟨code, key⟩ ∈ entries

omit [Text.Hasher] in
lemma nextOffset_isLeast (r : Records) :
    IsLeast {offset | Code.alignment ∣ offset ∧ r.primary.size ≤ offset} r.nextOffset := by
  refine ⟨⟨Nat.dvd_mul_left _ _, size_le_nextOffset r⟩, ?_⟩
  rintro offset ⟨⟨quarter, rfl⟩, hle⟩
  rw [nextOffset, Code.alignment] at *
  omega

omit [Text.Hasher] in
/-- An indexed code is a word from one on, below the embedded ones. -/
lemma word_bounds_of_isIndexed (h : code.isIndexed = true) :
    1 ≤ code.word.toNat ∧ code.word.toNat ≤ 0xDFFFFFFF := by
  simp only [Code.isIndexed, Code.embeddedStart, Bool.and_eq_true, decide_eq_true_eq] at h
  exact ⟨h.1, Nat.le_of_lt_succ (of_decide_eq_true h.2)⟩

/-! ## Without records -/

theorem Layout.create (config : Config) :
    (create config.tableCapacity config.primaryLimit).Layout config [] := by
  have hnone : ∀ {before after : List Entry} {entry}, [] ≠ before ++ entry :: after := by simp
  have hsize : (Records.create config.tableCapacity config.primaryLimit).primary.size = 1 :=
    Arena.size_write {} 0 [0]
  have hslots : Index.entries
      (Records.create config.tableCapacity config.primaryLimit).slots = [] := by
    rw [List.eq_nil_iff_forall_not_mem]
    intro mark hmem
    exact entry_notMem_emptySlots (mem_entries.1 hmem)
  constructor
  case offset => exact fun h => absurd h hnone
  case record => exact fun h => absurd h hnone
  case indexed => exact fun entry hmem => absurd hmem List.not_mem_nil
  case increasing => exact .nil
  case apart => exact .nil
  case primary_size => exact hsize
  case bounded =>
    rw [hsize]
    exact Nat.le_max_left _ _
  case limit => rfl
  case secondary => rfl
  case secondary_size => rfl
  case count => rfl
  case slots =>
    rw [hslots]
    exact .refl _
  case slots_size => exact size_emptySlots _
  case keys => exact List.nodup_nil
  case read =>
    intro code key
    rw [(create_sound config.tableCapacity config.primaryLimit).read_eq_ok_iff_issued]
    exact ⟨fun h => absurd h (not_issued_create _ _), fun h => absurd h List.not_mem_nil⟩

/-! ## A new record -/

omit [Text.Hasher] in
lemma primaryLimit_write (r : Records) (draft : Draft) (mark : RecordMark) (position : Nat) :
    (r.write draft mark position).primaryLimit = r.primaryLimit := by
  obtain ⟨bytes, outside⟩ := draft
  cases outside <;> rfl

omit [Text.Hasher] in
/-- The arenas end behind the new record and its value. -/
lemma write_ends (h : r.Laid) {inlineLimit : Nat} {draft : Draft}
    (hdraft : key.draft inlineLimit = .ok draft) (mark : RecordMark) (position : Nat) :
    (r.write draft mark position).primary.size = r.nextOffset + key.recordSize inlineLimit ∧
      (r.write draft mark position).secondary.toList =
        r.secondary.toList ++ key.spilled inlineLimit := by
  obtain ⟨hbytes, hsecondary, -⟩ := Key.draft_eq_ok hdraft
  have hnext := size_le_nextOffset r
  have hlength : draft.primary.length = key.recordSize inlineLimit := by
    rw [hbytes, Key.length_record]
  cases hinline : key.isInlined inlineLimit with
  | true =>
    rw [hinline, if_pos rfl] at hsecondary
    obtain ⟨hprimary, hsame⟩ := write_inline r mark position hsecondary
    rw [hprimary, hsame, Arena.size_write, hlength, Key.spilled, hinline, if_pos rfl,
      List.append_nil]
    exact ⟨by omega, rfl⟩
  | false =>
    rw [hinline, if_neg Bool.false_ne_true] at hsecondary
    obtain ⟨hprimary, hvalue⟩ := write_spilled r mark position hsecondary
    rw [hprimary, hvalue, Arena.size_write, Arena.size_write, hlength, length_littleEndian,
      Arena.toList_append h.secondary]
    have hpatched : 1 + offsetWidth ≤ key.recordSize inlineLimit := by
      rw [Key.recordSize, hinline, if_neg Bool.false_ne_true]
      exact Nat.le_add_right _ _
    exact ⟨by omega, rfl⟩

/-- The next record goes behind all others. -/
lemma Layout.stop_le_nextOffset (h : r.Layout config entries) {entry : Entry}
    (hmem : entry ∈ entries) : entry.stop config.inlineLimit ≤ r.nextOffset := by
  obtain ⟨before, after, hsplit⟩ := List.append_of_mem hmem
  have hspan := (h.record hsplit).1
  rw [Key.length_record] at hspan
  exact Nat.le_trans hspan (size_le_nextOffset r)

omit [Text.Hasher] in
/-- A place in a list with one more at its end. -/
lemma concat_eq_append_cons {before after : List Entry} {entry new : Entry}
    (h : entries ++ [new] = before ++ entry :: after) :
    (before = entries ∧ entry = new) ∨ ∃ rest, entries = before ++ entry :: rest := by
  rcases List.eq_nil_or_concat after with rfl | ⟨rest, last, rfl⟩
  · obtain ⟨rfl, hlast⟩ := List.append_inj' h rfl
    exact Or.inl ⟨rfl, (List.cons.inj hlast).1.symm⟩
  · rw [List.concat_eq_append, ← List.cons_append, ← List.append_assoc] at h
    exact Or.inr ⟨rest, (List.append_inj' h rfl).1⟩

/-- **A new record goes behind the others.** -/
theorem Layout.write (h : r.Layout config entries) (hr : r.Sound) (hkey : key.Normal)
    (hnew : ∀ other, ¬ r.Issued other key) {draft : Draft} {position : Nat}
    (hdraft : key.draft config.inlineLimit = .ok draft) (hcode : r.nextCode draft = .ok code)
    (hsearch : r.search key.hash key = .vacant position) :
    (r.write draft ⟨code, key.hash⟩ position).Layout config (entries ++ [⟨code, key⟩]) := by
  obtain ⟨hindexed, hoffset, hroom, -⟩ := nextCode_eq_ok hcode
  obtain ⟨hsound, hissued⟩ := hr.write hkey (hr.find?_eq_none_iff.2 hnew) hdraft hcode hsearch
  obtain ⟨hslots, hcount⟩ := write_table r draft ⟨code, key.hash⟩ position
  obtain ⟨hend, hvalues⟩ := write_ends hr.laid hdraft ⟨code, key.hash⟩ position
  obtain ⟨hrecord, -⟩ := has_record_write hr.laid hdraft ⟨code, key.hash⟩ position
  have hextends := extends_write hr.laid draft ⟨code, key.hash⟩ position
  have hlimit := primaryLimit_write r draft ⟨code, key.hash⟩ position
  generalize r.write draft ⟨code, key.hash⟩ position = s at *
  have hbefore : ∀ entry ∈ entries, entry.stop config.inlineLimit ≤ code.offset :=
    fun entry hmem => hoffset ▸ h.stop_le_nextOffset hmem
  have hlength : draft.primary.length = key.recordSize config.inlineLimit :=
    (Key.draft_eq_ok hdraft).1 ▸ Key.length_record
  constructor
  case offset =>
    intro before entry after hsplit
    rcases concat_eq_append_cons hsplit with ⟨rfl, rfl⟩ | ⟨rest, hold⟩
    · rw [hoffset, ← h.primary_size]
      exact nextOffset_isLeast r
    · exact h.offset hold
  case record =>
    intro before entry after hsplit
    rcases concat_eq_append_cons hsplit with ⟨rfl, rfl⟩ | ⟨rest, hold⟩
    · rw [hoffset, ← h.secondary_size]
      exact hrecord
    · exact hextends.primary _ _ (h.record hold)
  case indexed =>
    intro entry hmem
    rcases List.mem_append.1 hmem with hold | hlast
    · exact h.indexed entry hold
    · obtain rfl := List.mem_singleton.1 hlast
      exact word_bounds_of_isIndexed hindexed
  case increasing =>
    refine List.pairwise_append.2 ⟨h.increasing, List.pairwise_singleton _ _, ?_⟩
    intro entry hmem last hlast
    obtain rfl := List.mem_singleton.1 hlast
    exact Entry.word_lt_of_stop_le (hbefore entry hmem)
  case apart =>
    refine List.pairwise_append.2 ⟨h.apart, List.pairwise_singleton _ _, ?_⟩
    intro entry hmem last hlast
    obtain rfl := List.mem_singleton.1 hlast
    exact hbefore entry hmem
  case primary_size => rw [hend, Entry.frontier_concat, Entry.stop, hoffset]
  case bounded =>
    rw [hend, ← h.limit, ← hlength]
    exact Nat.le_trans hroom (Nat.le_max_right _ _)
  case limit => rw [hlimit, h.limit]
  case secondary => rw [hvalues, h.secondary, Entry.outside_concat]
  case secondary_size =>
    rw [← hsound.laid.secondary.length_toList, hvalues, h.secondary, Entry.outside_concat]
  case count => rw [hcount, h.count, List.length_append, List.length_singleton]
  case slots =>
    have hentered := hr.roomy.entries_entered
      (show probe _ (RecordMark.mk code key.hash).hash.toNat _ = _ from hsearch)
    rw [hslots, List.map_append, List.map_singleton]
    exact hentered.trans (h.slots.append_right _)
  case slots_size => rw [hslots, hr.roomy.size_entered, hcount, slotsFor, ← h.slots_size]
  case keys =>
    rw [List.map_append, List.map_singleton]
    refine List.Nodup.append h.keys (List.nodup_singleton key) ?_
    intro other hmem hlast
    obtain rfl := List.mem_singleton.1 hlast
    obtain ⟨entry, hentry, rfl⟩ := List.mem_map.1 hmem
    exact hnew entry.code (hr.read_eq_ok_iff_issued.1 (h.read.2 hentry))
  case read =>
    intro other own
    rw [hsound.read_eq_ok_iff_issued, hissued, List.mem_append, List.mem_singleton,
      Entry.mk.injEq, ← h.read, hr.read_eq_ok_iff_issued, or_comm]

/-- An insertion that issues a code writes its record behind the others. -/
theorem Layout.insert (h : r.Layout config entries) (hr : r.Sound) (hkey : key.Normal)
    (hnew : ∀ other, ¬ r.Issued other key)
    (hinsert : r.insert key config.inlineLimit = (.ok code, s)) :
    s.Layout config (entries ++ [⟨code, key⟩]) := by
  rcases hr.insert_steps key config.inlineLimit with ⟨other, hknown, -⟩ | ⟨e, -, -, hrefused⟩ |
    ⟨draft, found, position, -, hprepare, hsearch, hwritten⟩
  · exact absurd hknown (hnew other)
  · cases hrefused.symm.trans hinsert
  · obtain ⟨hfound, rfl⟩ := Prod.mk.inj (hwritten.symm.trans hinsert)
    obtain rfl := Except.ok.inj hfound
    obtain ⟨hdraft, hcode⟩ := prepare_eq_ok hprepare
    exact h.write hr hkey hnew hdraft hcode hsearch

end Records

end QuadBase.Dictionary
