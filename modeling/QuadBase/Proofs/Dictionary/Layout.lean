import QuadBase.Dictionary.Records
import QuadBase.Proofs.Dictionary.Arena

/-!
# Records in the arenas

What lies at the offset of a code is taken for a record, part by part.  `Records.keyAt?` is the key
that is read there, if all parts make sense, and everything about records is said in terms of it.

* `holds_iff` — comparing a record with a key in place is comparing the key that is read there.
* `keyAt?_mono` — what is read stays, as long as the rows of bytes in both arenas stay.
* `has_record_write` — where a new record and its value lie in the arenas.
* `keyAt?_write` — **a record that is written is read back**, be its value inside or outside.
-/

namespace QuadBase.Dictionary

namespace Arena

variable {a b : Arena} {offset length width n : Nat} {bytes : List UInt8} {byte : UInt8}

/-! ## Rows that stay -/

/-- Every row of bytes of one arena lies in the other one, too. -/
def Extends (a b : Arena) : Prop :=
  ∀ (offset : Nat) (bytes : List UInt8), a.Has offset bytes → b.Has offset bytes

lemma Extends.read? (h : a.Extends b) (ha : a.Chunked) (hb : b.Chunked)
    (hread : a.read? offset length = some bytes) : b.read? offset length = some bytes := by
  rw [read?_eq_some_iff ha] at hread
  exact (read?_eq_some_iff hb).2 ⟨hread.1, h _ _ hread.2⟩

lemma Extends.readByte? (h : a.Extends b) (ha : a.Chunked) (hb : b.Chunked)
    (hread : a.readByte? offset = some byte) : b.readByte? offset = some byte := by
  rw [readByte?_eq_some_iff ha] at hread
  exact (readByte?_eq_some_iff hb).2 (h _ _ hread)

lemma Extends.readNat? (h : a.Extends b) (ha : a.Chunked) (hb : b.Chunked)
    (hread : a.readNat? offset width = some n) : b.readNat? offset width = some n := by
  rw [Arena.readNat?] at hread ⊢
  split at hread
  next hwidth =>
    obtain ⟨bytes, hbytes, rfl⟩ := Option.map_eq_some_iff.1 hread
    rw [if_pos hwidth, h.read? ha hb hbytes, Option.map_some]
  next => cases hread

/-- What is kept is kept in place. -/
lemma Extends.toList_isPrefix (h : a.Extends b) (ha : a.Chunked) (hb : b.Chunked) :
    a.toList <+: b.toList := by
  have hall : a.Has 0 a.toList := ha.has_iff.2 ⟨Nat.le_of_eq (Nat.zero_add _), by simp⟩
  have hkept := (hb.has_iff.1 (h 0 a.toList hall)).2
  rw [List.drop_zero] at hkept
  exact hkept ▸ List.take_prefix _ _

/-- Writing behind the end keeps every row. -/
lemma extends_write (h : a.Chunked) {start : Nat} (hstart : a.size ≤ start)
    (bytes : List UInt8) : a.Extends (a.write start bytes) :=
  fun _ _ hhas => hhas.write h bytes (Or.inl (Nat.le_trans hhas.1 hstart))

lemma toList_append (h : a.Chunked) (bytes : List UInt8) :
    (a.append bytes).toList = a.toList ++ bytes := by
  have hkept := (extends_write h (Nat.le_refl a.size) bytes).toList_isPrefix h (h.write _ _)
  have hnew := ((h.write _ _).has_iff.1 (has_write h a.size bytes)).2
  obtain ⟨rest, hrest⟩ := hkept
  rw [← hrest, ← h.length_toList, List.drop_left] at hnew
  have hlength := congrArg List.length hrest
  rw [(h.write _ _).length_toList, size_write, List.length_append, h.length_toList] at hlength
  rw [append, ← hrest, ← hnew, List.take_of_length_le (by omega)]

end Arena

lemma length_utf8 (text : String) : (utf8 text).length = text.utf8ByteSize := rfl

/-- A kind without vocabulary number goes with the number zero. -/
def Key.Normal (key : Key) : Prop :=
  key.kind.hasIndex = false → key.index = 0

namespace Key

variable {key : Key} {inlineLimit start : Nat}

/-! ## The bytes of a record -/

/-- Whether the value of a key is kept in its record. -/
def isInlined (key : Key) (inlineLimit : Nat) : Bool :=
  isInline inlineLimit (utf8 key.value).length

/-- What a key adds to the secondary arena: nothing, or its value behind the length. -/
def spilled (key : Key) (inlineLimit : Nat) : List UInt8 :=
  if key.isInlined inlineLimit then []
  else littleEndian lengthWidth (utf8 key.value).length ++ utf8 key.value

/-- The record of a key.  A value that is kept outside lies at `start`, behind its length. -/
def record (key : Key) (inlineLimit start : Nat) : List UInt8 :=
  if key.isInlined inlineLimit then
    key.kind.header true :: UInt8.ofNat (utf8 key.value).length :: (utf8 key.value ++ key.indexBytes)
  else key.kind.header false :: (littleEndian offsetWidth start ++ key.indexBytes)

/-- The number of bytes of a record. -/
def recordSize (key : Key) (inlineLimit : Nat) : Nat :=
  (if key.isInlined inlineLimit then 2 + (utf8 key.value).length else 1 + offsetWidth) +
    if key.kind.hasIndex then indexWidth else 0

lemma length_indexBytes : key.indexBytes.length = if key.kind.hasIndex then indexWidth else 0 := by
  rw [indexBytes]
  split
  · exact length_littleEndian _ _
  · rfl

lemma length_record : (key.record inlineLimit start).length = key.recordSize inlineLimit := by
  rw [record, recordSize, ← length_indexBytes]
  split
  · simp only [List.length_cons, List.length_append]
    omega
  · simp only [List.length_cons, List.length_append, length_littleEndian]
    omega

lemma recordSize_pos : 0 < key.recordSize inlineLimit := by
  rw [recordSize]
  split <;> omega

/-- A draft is the record without the place of its value, and the value if it is kept outside. -/
lemma draft_eq_ok {draft : Draft} (h : key.draft inlineLimit = .ok draft) :
    draft.primary = key.record inlineLimit 0 ∧
      draft.secondary =
        (if key.isInlined inlineLimit then none else some (key.spilled inlineLimit)) ∧
      (utf8 key.value).length < Nat.pow 256 lengthWidth := by
  rw [Key.draft] at h
  rw [record, spilled, isInlined]
  split at h
  next hinline =>
    obtain rfl := Except.ok.inj h
    rw [if_pos hinline, if_pos hinline]
    rw [isInline, Bool.and_eq_true, decide_eq_true_eq] at hinline
    exact ⟨rfl, rfl, Nat.lt_of_lt_of_le hinline.1 (by decide)⟩
  next houtside =>
    split at h
    next hshort =>
      obtain rfl := Except.ok.inj h
      rw [if_neg houtside, if_neg houtside, if_neg houtside]
      exact ⟨rfl, rfl, hshort⟩
    next => cases h

end Key

namespace Records

variable {r s : Records} {code : Code} {key : Key} {location : Location}

/-- Both arenas are in order. -/
structure Laid (r : Records) : Prop where
  primary : r.primary.Chunked
  secondary : r.secondary.Chunked

/-- Both arenas keep their rows. -/
structure Extends (r s : Records) : Prop where
  primary : r.primary.Extends s.primary
  secondary : r.secondary.Extends s.secondary

lemma Laid.arenaOf (h : r.Laid) (location : Location) : (r.arenaOf location).Chunked := by
  rw [Records.arenaOf]
  split
  · exact h.primary
  · exact h.secondary

/-! ## The parts of a record -/

/-- Offset and length of the value of a record, and the offset of its vocabulary number. -/
def valueAt? (r : Records) (offset : Nat) (inline : Bool) : Option (Nat × Nat × Nat) :=
  if inline then
    (r.primary.readByte? (offset + 1)).map fun length =>
      (offset + 2, length.toNat, offset + 2 + length.toNat)
  else
    (r.primary.readNat? (offset + 1) offsetWidth).bind fun start =>
      (r.secondary.readNat? start lengthWidth).map fun length =>
        (start + lengthWidth, length, offset + 1 + offsetWidth)

/-- The vocabulary number of a record, zero if its kind has none. -/
def indexAt? (r : Records) (kind : RecordKind) (offset : Nat) : Option Nat :=
  if kind.hasIndex then r.primary.readNat? offset indexWidth else some 0

/-- **Where a record keeps its parts.** -/
theorem locate?_eq (r : Records) (code : Code) : r.locate? code =
    if code.isIndexed then
      (r.primary.readByte? code.offset).bind fun byte =>
      (RecordKind.ofHeader? byte).bind fun head =>
      (r.valueAt? code.offset head.2).bind fun value =>
      (r.indexAt? head.1 value.2.2).map fun index =>
        ⟨head.1, UInt16.ofNat index, head.2, value.1, value.2.1⟩
    else none := by
  rw [locate?]
  cases code.isIndexed with
  | false => rfl
  | true =>
    simp only [Bool.not_true, Bool.false_eq_true, if_false, if_true, bind]
    congr 1
    funext byte
    congr 1
    funext head
    obtain ⟨kind, inline⟩ := head
    have hindex : ∀ (offset : Nat) (result : Nat → Location),
        (if kind.hasIndex = true then
          (r.primary.readNat? offset indexWidth).bind fun index => some (result index)
          else some (result 0)) = (r.indexAt? kind offset).map result := by
      intro offset result
      rw [indexAt?]
      split
      · rw [Option.map_eq_bind]
        rfl
      · rfl
    cases inline with
    | false =>
      simp only [Bool.false_eq_true, if_false, valueAt?, Option.bind_some]
      cases r.primary.readNat? (code.offset + 1) offsetWidth with
      | none => rfl
      | some start =>
        simp only [Option.bind_some]
        cases r.secondary.readNat? start lengthWidth with
        | none => rfl
        | some length =>
          simp only [Option.bind_some, Option.map_some]
          exact hindex _ _
    | true =>
      simp only [if_true, valueAt?, Option.bind_some]
      cases r.primary.readByte? (code.offset + 1) with
      | none => rfl
      | some length =>
        simp only [Option.bind_some, Option.map_some]
        exact hindex _ _

lemma valueAt?_mono (h : r.Extends s) (hr : r.Laid) (hs : s.Laid) {offset : Nat} {inline : Bool}
    {value : Nat × Nat × Nat} (hvalue : r.valueAt? offset inline = some value) :
    s.valueAt? offset inline = some value := by
  rw [valueAt?] at hvalue ⊢
  split at hvalue
  next hinline =>
    obtain ⟨length, hlength, rfl⟩ := Option.map_eq_some_iff.1 hvalue
    rw [if_pos hinline, h.primary.readByte? hr.primary hs.primary hlength, Option.map_some]
  next houtside =>
    obtain ⟨start, hstart, hvalue⟩ := Option.bind_eq_some_iff.1 hvalue
    obtain ⟨length, hlength, rfl⟩ := Option.map_eq_some_iff.1 hvalue
    rw [if_neg houtside, h.primary.readNat? hr.primary hs.primary hstart, Option.bind_some,
      h.secondary.readNat? hr.secondary hs.secondary hlength, Option.map_some]

lemma indexAt?_mono (h : r.Extends s) (hr : r.Laid) (hs : s.Laid) {kind : RecordKind}
    {offset index : Nat} (hindex : r.indexAt? kind offset = some index) :
    s.indexAt? kind offset = some index := by
  rw [indexAt?] at hindex ⊢
  split at hindex
  next hhas => rw [if_pos hhas, h.primary.readNat? hr.primary hs.primary hindex]
  next hnone => rw [if_neg hnone, hindex]

lemma locate?_mono (h : r.Extends s) (hr : r.Laid) (hs : s.Laid)
    (hlocate : r.locate? code = some location) : s.locate? code = some location := by
  rw [locate?_eq] at hlocate ⊢
  split at hlocate
  next hindexed =>
    obtain ⟨byte, hbyte, hlocate⟩ := Option.bind_eq_some_iff.1 hlocate
    obtain ⟨head, hhead, hlocate⟩ := Option.bind_eq_some_iff.1 hlocate
    obtain ⟨value, hvalue, hlocate⟩ := Option.bind_eq_some_iff.1 hlocate
    obtain ⟨index, hindex, rfl⟩ := Option.map_eq_some_iff.1 hlocate
    rw [if_pos hindexed, h.primary.readByte? hr.primary hs.primary hbyte, Option.bind_some, hhead,
      Option.bind_some, valueAt?_mono h hr hs hvalue, Option.bind_some,
      indexAt?_mono h hr hs hindex, Option.map_some]
  next => cases hlocate

/-! ## The key of a record -/

/-- The key that is read at the offset of a code. -/
def keyAt? (r : Records) (code : Code) : Option Key :=
  (r.locate? code).bind fun location =>
    ((r.arenaOf location).read? location.valueOffset location.valueLength).bind fun bytes =>
      (ofUtf8? bytes).bind fun value => some ⟨location.kind, location.index, value⟩

lemma keyAt?_eq_some_iff : r.keyAt? code = some key ↔ ∃ location,
    r.locate? code = some location ∧ location.kind = key.kind ∧ location.index = key.index ∧
      (r.arenaOf location).read? location.valueOffset location.valueLength =
        some (utf8 key.value) := by
  rw [keyAt?, Option.bind_eq_some_iff]
  refine exists_congr fun location => and_congr_right ?_
  intro _
  constructor
  · intro hkey
    obtain ⟨bytes, hread, hkey⟩ := Option.bind_eq_some_iff.1 hkey
    obtain ⟨value, hvalue, hkey⟩ := Option.bind_eq_some_iff.1 hkey
    obtain rfl := Option.some.inj hkey
    exact ⟨rfl, rfl, by rw [hread, utf8_of_ofUtf8? hvalue]⟩
  · rintro ⟨hkind, hindex, hread⟩
    rw [hread, Option.bind_some, ofUtf8?_utf8, Option.bind_some, hkind, hindex]

/-- **Comparing in place is comparing with the key that is read.** -/
theorem holds_iff (h : r.Laid) : r.holds code key = true ↔ r.keyAt? code = some key := by
  rw [holds, keyAt?_eq_some_iff]
  cases r.locate? code with
  | none => simp
  | some location =>
    simp only [Bool.and_eq_true, beq_iff_eq, Arena.holds_iff (h.arenaOf location),
      Arena.read?_eq_some_iff (h.arenaOf location), Option.some.injEq, exists_eq_left', and_assoc]
    rw [← length_utf8, @eq_comm _ location.valueLength]

lemma keyAt?_mono (h : r.Extends s) (hr : r.Laid) (hs : s.Laid)
    (hkey : r.keyAt? code = some key) : s.keyAt? code = some key := by
  rw [keyAt?_eq_some_iff] at hkey ⊢
  obtain ⟨location, hlocate, hkind, hindex, hread⟩ := hkey
  refine ⟨location, locate?_mono h hr hs hlocate, hkind, hindex, ?_⟩
  rw [arenaOf] at hread ⊢
  split at hread
  next hinline => rw [if_pos hinline, h.primary.read? hr.primary hs.primary hread]
  next houtside => rw [if_neg houtside, h.secondary.read? hr.secondary hs.secondary hread]

/-- Reading trusts only what is found again. -/
lemma read_eq_ok_iff [Text.Hasher] :
    r.read code = .ok key ↔ r.keyAt? code = some key ∧ r.find? key = some code := by
  have hkey : ((r.locate? code).bind fun location =>
      ((r.arenaOf location).read? location.valueOffset location.valueLength).bind fun bytes =>
        (ofUtf8? bytes).bind fun value =>
          some (⟨location.kind, location.index, value⟩ : Key)) = r.keyAt? code := rfl
  simp only [read, bind, hkey]
  cases r.keyAt? code with
  | none => simp
  | some found =>
    simp only [Option.some.injEq]
    constructor
    · intro hok
      split at hok
      next hfind =>
        obtain rfl := Except.ok.inj hok
        exact ⟨rfl, hfind⟩
      next => cases hok
    · rintro ⟨rfl, hfind⟩
      rw [if_pos hfind]

/-! ## Writing a record -/

lemma isIndexed_of_ofOffset? {offset : Nat} (h : Code.ofOffset? offset = some code) :
    code.isIndexed = true := by
  simp only [Code.ofOffset?] at h
  split at h
  next hrange =>
    obtain rfl := Option.some.inj h
    simp only [Code.isIndexed, Code.embeddedStart, UInt32.toNat_ofNat', Bool.and_eq_true,
      decide_eq_true_eq] at *
    omega
  next => cases h

lemma size_le_nextOffset (r : Records) : r.primary.size ≤ r.nextOffset := by
  rw [nextOffset, Code.alignment]
  omega

/-- What the code of the next record says about it. -/
lemma nextCode_eq_ok {draft : Draft} (h : r.nextCode draft = .ok code) :
    code.isIndexed = true ∧ code.offset = r.nextOffset ∧
      r.nextOffset + draft.primary.length ≤ r.primaryLimit ∧
      ∀ spilled ∈ draft.secondary, r.secondary.size + spilled.length ≤ secondaryLimit := by
  rw [nextCode] at h
  split at h
  · cases h
  next found hfound =>
    obtain ⟨hcode, hroom⟩ := Option.filter_eq_some_iff.1 hfound
    simp only [decide_eq_true_eq] at hroom
    simp only [Bool.and_eq_true, decide_eq_true_eq] at h
    split at h
    next => cases h
    next hspilled =>
      obtain rfl := Except.ok.inj h
      have haligned : r.nextOffset % Code.alignment = 0 := Nat.mul_mod_left _ _
      refine ⟨isIndexed_of_ofOffset? hcode, Code.offset_of_ofOffset? hcode haligned, hroom, ?_⟩
      intro spilled hmem
      rw [hmem] at hspilled
      simpa using hspilled

variable {draft : Draft} {spilled : List UInt8}

lemma write_inline (r : Records) (mark : RecordMark) (position : Nat)
    (h : draft.secondary = none) :
    (r.write draft mark position).primary = r.primary.write r.nextOffset draft.primary ∧
      (r.write draft mark position).secondary = r.secondary := by
  obtain ⟨bytes, outside⟩ := draft
  cases h
  exact ⟨rfl, rfl⟩

lemma write_spilled (r : Records) (mark : RecordMark) (position : Nat)
    (h : draft.secondary = some spilled) :
    (r.write draft mark position).primary =
        (r.primary.write r.nextOffset draft.primary).write (r.nextOffset + 1)
          (littleEndian offsetWidth r.secondary.size) ∧
      (r.write draft mark position).secondary = r.secondary.append spilled := by
  obtain ⟨bytes, outside⟩ := draft
  cases h
  exact ⟨rfl, rfl⟩

lemma Laid.write (h : r.Laid) (draft : Draft) (mark : RecordMark) (position : Nat) :
    (r.write draft mark position).Laid := by
  cases hspilled : draft.secondary with
  | none =>
    obtain ⟨hprimary, hsecondary⟩ := write_inline r mark position hspilled
    exact ⟨hprimary ▸ h.primary.write _ _, hsecondary ▸ h.secondary⟩
  | some spilled =>
    obtain ⟨hprimary, hsecondary⟩ := write_spilled r mark position hspilled
    exact ⟨hprimary ▸ (h.primary.write _ _).write _ _, hsecondary ▸ h.secondary.write _ _⟩

lemma extends_write (h : r.Laid) (draft : Draft) (mark : RecordMark) (position : Nat) :
    r.Extends (r.write draft mark position) := by
  have hnext := size_le_nextOffset r
  have hfirst := Arena.extends_write h.primary hnext draft.primary
  cases hspilled : draft.secondary with
  | none =>
    obtain ⟨hprimary, hsecondary⟩ := write_inline r mark position hspilled
    rw [← hprimary] at hfirst
    exact ⟨hfirst, fun _ _ hhas => hsecondary ▸ hhas⟩
  | some spilled =>
    obtain ⟨hprimary, hsecondary⟩ := write_spilled r mark position hspilled
    constructor
    · intro offset bytes hhas
      rw [hprimary]
      refine (hfirst offset bytes hhas).write (h.primary.write _ _) _ (Or.inl ?_)
      have hspan := hhas.1
      omega
    · intro offset bytes hhas
      rw [hsecondary]
      exact Arena.extends_write h.secondary (Nat.le_refl _) spilled offset bytes hhas

/-- The vocabulary number at the end of a record. -/
lemma indexAt?_of_has (h : r.Laid) (hkey : key.Normal) {offset : Nat}
    (hhas : r.primary.Has offset key.indexBytes) :
    ∃ index, r.indexAt? key.kind offset = some index ∧ key.index = UInt16.ofNat index := by
  rw [indexAt?]
  split
  next hindex =>
    rw [Key.indexBytes, if_pos hindex] at hhas
    have hfits : key.index.toNat < Nat.pow 256 indexWidth := key.index.toNat_lt
    refine ⟨_, Arena.readNat?_of_has h.primary (by decide) hfits hhas, ?_⟩
    rw [UInt16.ofNat_toNat]
  next hindex => exact ⟨0, rfl, hkey (by simpa using hindex)⟩

/-- A record whose parts lie where they should is read as its key. -/
lemma keyAt?_of_parts (h : r.Laid) (hkey : key.Normal) (hcode : code.isIndexed = true)
    (inline : Bool) {valueOffset indexOffset : Nat}
    (hheader : r.primary.Has code.offset [key.kind.header inline])
    (hvalueAt : r.valueAt? code.offset inline =
      some (valueOffset, (utf8 key.value).length, indexOffset))
    (hvalue : (if inline then r.primary else r.secondary).Has valueOffset (utf8 key.value))
    (hindex : r.primary.Has indexOffset key.indexBytes) : r.keyAt? code = some key := by
  obtain ⟨index, hread, hsame⟩ := indexAt?_of_has h hkey hindex
  refine keyAt?_eq_some_iff.2
    ⟨⟨key.kind, UInt16.ofNat index, inline, valueOffset, (utf8 key.value).length⟩, ?_, rfl,
      hsame.symm, (Arena.read?_eq_some_iff (h.arenaOf _)).2 ⟨rfl, hvalue⟩⟩
  rw [locate?_eq, if_pos hcode, (Arena.readByte?_eq_some_iff h.primary).2 hheader, Option.bind_some,
    RecordKind.ofHeader?_header, Option.bind_some, hvalueAt, Option.bind_some, hread,
    Option.map_some]

variable {inlineLimit : Nat}

/-- **A record that lies in the arenas is read as its key**, be its value inside or outside. -/
theorem keyAt?_of_record (h : r.Laid) (hkey : key.Normal) (hcode : code.isIndexed = true)
    {start : Nat} (hrecord : r.primary.Has code.offset (key.record inlineLimit start))
    (hspilled : r.secondary.Has start (key.spilled inlineLimit))
    (hshort : (utf8 key.value).length < Nat.pow 256 lengthWidth)
    (hfits : key.isInlined inlineLimit = false → start < Nat.pow 256 offsetWidth) :
    r.keyAt? code = some key := by
  rw [Key.record] at hrecord
  rw [Key.spilled] at hspilled
  cases hinline : key.isInlined inlineLimit with
  | true =>
    rw [hinline, if_pos rfl] at hrecord
    obtain ⟨hheader, hrest⟩ := Arena.has_cons.1 hrecord
    obtain ⟨hlength, hrest⟩ := Arena.has_cons.1 hrest
    obtain ⟨hvalue, hindex⟩ := Arena.has_append.1 hrest
    refine keyAt?_of_parts h hkey hcode true hheader ?_ hvalue hindex
    rw [Key.isInlined, isInline, Bool.and_eq_true, decide_eq_true_eq] at hinline
    have hnat : (UInt8.ofNat (utf8 key.value).length).toNat = (utf8 key.value).length := by
      rw [UInt8.toNat_ofNat', Nat.mod_eq_of_lt hinline.1]
    rw [valueAt?, if_pos rfl, (Arena.readByte?_eq_some_iff h.primary).2 hlength, Option.map_some,
      hnat]
  | false =>
    rw [hinline, if_neg Bool.false_ne_true] at hrecord hspilled
    obtain ⟨hheader, hrest⟩ := Arena.has_cons.1 hrecord
    obtain ⟨hstart, hindex⟩ := Arena.has_append.1 hrest
    obtain ⟨hlength, hvalue⟩ := Arena.has_append.1 hspilled
    rw [length_littleEndian] at hindex hvalue
    refine keyAt?_of_parts h hkey hcode false hheader ?_ hvalue hindex
    rw [valueAt?, if_neg Bool.false_ne_true,
      Arena.readNat?_of_has h.primary (by decide) (hfits hinline) hstart, Option.bind_some,
      Arena.readNat?_of_has h.secondary (by decide) hshort hlength, Option.map_some]

/-- **A record is written where the next one belongs**, and its value behind the other values. -/
theorem has_record_write (h : r.Laid) (hdraft : key.draft inlineLimit = .ok draft)
    (mark : RecordMark) (position : Nat) :
    (r.write draft mark position).primary.Has r.nextOffset
        (key.record inlineLimit r.secondary.size) ∧
      (r.write draft mark position).secondary.Has r.secondary.size (key.spilled inlineLimit) := by
  obtain ⟨hbytes, hsecondary, -⟩ := Key.draft_eq_ok hdraft
  have hwritten := Arena.has_write h.primary r.nextOffset draft.primary
  cases hinline : key.isInlined inlineLimit with
  | true =>
    rw [hinline, if_pos rfl] at hsecondary
    obtain ⟨hprimary, hsame⟩ := write_inline r mark position hsecondary
    have hrecord : key.record inlineLimit r.secondary.size = key.record inlineLimit 0 := by
      rw [Key.record, hinline, if_pos rfl, Key.record, hinline, if_pos rfl]
    rw [hprimary, hsame, hrecord, ← hbytes, Key.spilled, hinline, if_pos rfl]
    exact ⟨hwritten, Nat.le_refl _, fun i hi => absurd hi (Nat.not_lt_zero i)⟩
  | false =>
    rw [hinline, if_neg Bool.false_ne_true] at hsecondary
    obtain ⟨hprimary, hvalue⟩ := write_spilled r mark position hsecondary
    rw [hprimary, hvalue]
    refine ⟨?_, Arena.has_write h.secondary _ _⟩
    have hfirst := h.primary.write r.nextOffset draft.primary
    rw [hbytes, Key.record, hinline, if_neg Bool.false_ne_true] at hwritten hfirst ⊢
    rw [Key.record, hinline, if_neg Bool.false_ne_true]
    obtain ⟨hheader, hrest⟩ := Arena.has_cons.1 hwritten
    obtain ⟨-, hindex⟩ := Arena.has_append.1 hrest
    rw [length_littleEndian] at hindex
    -- the offset is written over its place, between header and vocabulary number
    have hbeside : r.nextOffset + 1 + (littleEndian offsetWidth r.secondary.size).length ≤
        r.nextOffset + 1 + offsetWidth :=
      Nat.le_of_eq (congrArg (r.nextOffset + 1 + ·) (length_littleEndian _ _))
    refine Arena.has_cons.2 ⟨hheader.write hfirst _ (Or.inl (Nat.le_refl _)),
      Arena.has_append.2 ⟨Arena.has_write hfirst _ _, ?_⟩⟩
    rw [length_littleEndian]
    exact hindex.write hfirst _ (Or.inr hbeside)

/-- **A record that is written is read back.** -/
theorem keyAt?_write (h : r.Laid) (hkey : key.Normal) (hdraft : key.draft inlineLimit = .ok draft)
    (hcode : r.nextCode draft = .ok code) (mark : RecordMark) (position : Nat) :
    (r.write draft mark position).keyAt? code = some key := by
  obtain ⟨hindexed, hoffset, -, hroom⟩ := nextCode_eq_ok hcode
  obtain ⟨-, hsecondary, hshort⟩ := Key.draft_eq_ok hdraft
  obtain ⟨hrecord, hspilled⟩ := has_record_write h hdraft mark position
  rw [← hoffset] at hrecord
  refine keyAt?_of_record (h.write draft mark position) hkey hindexed hrecord hspilled hshort ?_
  intro hinline
  rw [hinline, if_neg Bool.false_ne_true] at hsecondary
  have hend := hroom _ hsecondary
  rw [Key.spilled, hinline, if_neg Bool.false_ne_true, List.length_append, length_littleEndian,
    secondaryLimit, lengthWidth] at hend
  omega

end Records

end QuadBase.Dictionary
