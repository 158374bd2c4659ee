import Mathlib.Tactic.Common
import QuadBase.Dictionary.Arena

/-!
# What an arena holds

The chunks of an arena are a matter of its own: everything else in the dictionary sees bytes at
offsets.  `Arena.byte?` is that view, and `Arena.Chunked` says that the chunks have the sizes that
make it true.  A writer is described by the bytes after it (`Arena.byte?_pushZeros`,
`Arena.byte?_write`), a reader by the bytes that it needs (`Arena.read?_eq_some_iff`,
`Arena.holds_iff`).

`Arena.Has a offset bytes` says that a row of bytes lies at an offset.  It survives every write that
does not touch the row (`Arena.Has.write`), so in particular every append.

`Arena.Confined` says that the readers look at nothing but the bytes of the arena, whatever range
they are asked for.
-/

namespace QuadBase.Dictionary

namespace Arena

variable {a b : Arena} {chunks : Array (Array UInt8)} {offset i : Nat} {bytes more : List UInt8}

/-! ## Bytes at offsets -/

/-- The byte at an offset of a row of chunks. -/
def byteIn? (chunks : Array (Array UInt8)) (offset : Nat) : Option UInt8 :=
  chunks[offset / chunkSize]?.bind (·[offset % chunkSize]?)

/-- The byte at an offset. -/
def byte? (a : Arena) (offset : Nat) : Option UInt8 :=
  byteIn? a.chunks offset

/-- All chunks but the last are full, and there is no empty one. -/
structure Chunked (a : Arena) : Prop where
  count : a.chunks.size = (a.size + (chunkSize - 1)) / chunkSize
  filled : ∀ (number : Nat) (chunk : Array UInt8), a.chunks[number]? = some chunk →
    chunk.size = min chunkSize (a.size - number * chunkSize)

lemma chunkSize_eq : chunkSize = 65536 := rfl

lemma chunked_empty : Chunked {} :=
  ⟨rfl, fun _ _ h => by simp at h⟩

/-- Exactly the offsets below the size have a byte. -/
lemma Chunked.isSome_byte? (h : a.Chunked) (offset : Nat) :
    (a.byte? offset).isSome ↔ offset < a.size := by
  have hcount := h.count
  rw [byte?, byteIn?]
  cases hchunk : a.chunks[offset / chunkSize]? with
  | none =>
    have hge := Array.getElem?_eq_none_iff.1 hchunk
    simp only [Option.bind_none, Option.isSome_none, chunkSize_eq, Bool.false_eq_true,
      false_iff] at *
    omega
  | some chunk =>
    have hsize := h.filled _ _ hchunk
    have hlt := (Array.getElem?_eq_some_iff.1 hchunk).1
    simp only [Option.bind_some, isSome_getElem?, hsize, chunkSize_eq] at *
    omega

/-! ## Growing -/

/-- The last chunk of an arena is full. -/
lemma pushZero_of_aligned (haligned : a.size % chunkSize = 0) :
    a.pushZero = ⟨a.chunks.push #[0], a.size + 1⟩ :=
  if_pos haligned

/-- The last chunk of an arena has room. -/
lemma pushZero_of_partial (hpartial : a.size % chunkSize ≠ 0) :
    a.pushZero = ⟨a.chunks.modify (a.size / chunkSize) (·.push 0), a.size + 1⟩ :=
  if_neg hpartial

lemma Chunked.pushZero (h : a.Chunked) : a.pushZero.Chunked := by
  have hcount := h.count
  by_cases haligned : a.size % chunkSize = 0
  · rw [pushZero_of_aligned haligned]
    simp only [chunkSize_eq] at haligned hcount
    refine ⟨by simp only [Array.size_push, chunkSize_eq]; omega, ?_⟩
    intro number chunk hchunk
    show chunk.size = min chunkSize (a.size + 1 - number * chunkSize)
    rw [Array.getElem?_push] at hchunk
    split at hchunk
    next heq =>
      obtain rfl := Option.some.inj hchunk
      simp only [List.size_toArray, List.length_singleton, chunkSize_eq]
      omega
    next hne =>
      have hlt := (Array.getElem?_eq_some_iff.1 hchunk).1
      rw [h.filled number chunk hchunk, chunkSize_eq]
      omega
  · rw [pushZero_of_partial haligned]
    simp only [chunkSize_eq] at haligned hcount
    refine ⟨by simp only [Array.size_modify, chunkSize_eq]; omega, ?_⟩
    intro number chunk hchunk
    show chunk.size = min chunkSize (a.size + 1 - number * chunkSize)
    rw [Array.getElem?_modify] at hchunk
    split at hchunk
    next heq =>
      obtain ⟨old, hold, rfl⟩ := Option.map_eq_some_iff.1 hchunk
      rw [Array.size_push, h.filled number old hold, chunkSize_eq]
      simp only [chunkSize_eq] at heq
      omega
    next hne =>
      have hlt := (Array.getElem?_eq_some_iff.1 hchunk).1
      rw [h.filled number chunk hchunk, chunkSize_eq]
      simp only [chunkSize_eq] at hne
      omega

lemma byte?_pushZero (h : a.Chunked) (i : Nat) :
    a.pushZero.byte? i = if i = a.size then some 0 else a.byte? i := by
  have hcount := h.count
  by_cases haligned : a.size % chunkSize = 0
  · rw [pushZero_of_aligned haligned]
    simp only [byte?, byteIn?, Array.getElem?_push, chunkSize_eq] at *
    by_cases hnew : i / 65536 = a.chunks.size
    · have hold : a.chunks[i / 65536]? = none :=
        Array.getElem?_eq_none_iff.2 (Nat.le_of_eq hnew.symm)
      rw [if_pos hnew, hold]
      by_cases hfirst : i % 65536 = 0
      · rw [if_pos (by omega), hfirst]
        rfl
      · rw [if_neg (by omega)]
        simpa using hfirst
    · rw [if_neg hnew, if_neg (by omega)]
  · rw [pushZero_of_partial haligned]
    simp only [byte?, byteIn?, Array.getElem?_modify, chunkSize_eq] at *
    by_cases hlast : a.size / 65536 = i / 65536
    · obtain ⟨chunk, hchunk⟩ : ∃ chunk, a.chunks[i / 65536]? = some chunk :=
        ⟨_, Array.getElem?_eq_getElem (by omega)⟩
      have hsize := h.filled _ _ hchunk
      rw [chunkSize_eq] at hsize
      rw [if_pos hlast, hchunk, Option.map_some, Option.bind_some, Option.bind_some,
        Array.getElem?_push, hsize]
      by_cases hi : i = a.size
      · rw [if_pos (by omega), if_pos hi]
      · rw [if_neg (by omega), if_neg hi]
    · rw [if_neg hlast, if_neg (by omega)]

@[simp] lemma size_pushZero (a : Arena) : a.pushZero.size = a.size + 1 := by
  by_cases haligned : a.size % chunkSize = 0
  · rw [pushZero_of_aligned haligned]
  · rw [pushZero_of_partial haligned]

@[simp] lemma size_pushZeros (count : Nat) (a : Arena) :
    (pushZeros count a).size = a.size + count := by
  induction count generalizing a with
  | zero => rfl
  | succ count ih => rw [pushZeros, ih, size_pushZero]; omega

lemma Chunked.pushZeros (h : a.Chunked) (count : Nat) : (pushZeros count a).Chunked := by
  induction count generalizing a with
  | zero => exact h
  | succ count ih => exact ih h.pushZero

lemma byte?_pushZeros (h : a.Chunked) (count i : Nat) :
    (pushZeros count a).byte? i =
      if a.size ≤ i ∧ i < a.size + count then some 0 else a.byte? i := by
  induction count generalizing a with
  | zero => rw [if_neg (by omega), pushZeros]
  | succ count ih =>
    rw [pushZeros, ih h.pushZero, byte?_pushZero h, size_pushZero]
    by_cases hfirst : i = a.size
    · rw [if_neg (by omega), if_pos hfirst, if_pos (by omega)]
    · by_cases hlater : a.size + 1 ≤ i ∧ i < a.size + 1 + count
      · rw [if_pos hlater, if_pos (by omega)]
      · rw [if_neg hlater, if_neg hfirst, if_neg (by omega)]

/-! ## Overwriting -/

@[simp] lemma size_overwrite (chunk : Array UInt8) (position : Nat) (bytes : List UInt8) :
    (overwrite chunk position bytes).size = chunk.size := by
  induction bytes generalizing chunk position with
  | nil => rfl
  | cons byte bytes ih => rw [overwrite, ih, Array.size_setIfInBounds]

lemma getElem?_overwrite {chunk : Array UInt8} {position : Nat}
    (hroom : position + bytes.length ≤ chunk.size) (i : Nat) :
    (overwrite chunk position bytes)[i]? =
      if position ≤ i ∧ i < position + bytes.length then bytes[i - position]? else chunk[i]? := by
  induction bytes generalizing chunk position with
  | nil => rw [if_neg (by simp), overwrite]
  | cons byte bytes ih =>
    rw [List.length_cons] at *
    rw [overwrite, ih (by rw [Array.size_setIfInBounds]; omega), Array.getElem?_setIfInBounds]
    rcases Nat.lt_trichotomy i position with hlt | rfl | hgt
    · rw [if_neg (by omega), if_neg (by omega), if_neg (by omega)]
    · rw [if_neg (by omega), if_pos rfl, if_pos (by omega), if_pos (by omega), Nat.sub_self]
      rfl
    · have hsub : i - position = i - (position + 1) + 1 := by omega
      rw [hsub, List.getElem?_cons_succ]
      by_cases hin : i < position + 1 + bytes.length
      · rw [if_pos (by omega), if_pos (by omega)]
      · rw [if_neg (by omega), if_neg (by omega), if_neg (by omega)]

lemma sizes_overwriteChunks (chunks : Array (Array UInt8)) (offset : Nat) (bytes : List UInt8) :
    (overwriteChunks chunks offset bytes).map Array.size = chunks.map Array.size := by
  induction chunks, offset, bytes using overwriteChunks.induct with
  | case1 chunks offset bytes hempty => rw [overwriteChunks, if_pos hempty]
  | case2 chunks offset bytes hsome room later ih =>
    rw [overwriteChunks, if_neg hsome]
    refine ih.trans (Array.ext_getElem? ?_)
    intro number
    rw [Array.getElem?_map, Array.getElem?_map, Array.getElem?_modify]
    split
    · simp [Option.map_map, Function.comp_def]
    · rfl

/-- Overwriting bytes of one chunk. -/
lemma byteIn?_modify {part : List UInt8} (hroom : part.length ≤ roomAt offset)
    (hthere : ∀ i, offset ≤ i → i < offset + part.length → (byteIn? chunks i).isSome) (i : Nat) :
    byteIn? (chunks.modify (offset / chunkSize) (overwrite · (offset % chunkSize) part)) i =
      if offset ≤ i ∧ i < offset + part.length then part[i - offset]? else byteIn? chunks i := by
  simp only [byteIn?, Array.getElem?_modify, roomAt, chunkSize_eq] at *
  rcases Nat.eq_zero_or_pos part.length with hnone | hsome
  · obtain rfl : part = [] := List.eq_nil_of_length_eq_zero hnone
    rw [if_neg (show ¬(offset ≤ i ∧ i < offset + [].length) by simp)]
    simp [overwrite]
  by_cases hchunk : offset / 65536 = i / 65536
  · have hlast := hthere (offset + (part.length - 1)) (by omega) (by omega)
    have hsame : (offset + (part.length - 1)) / 65536 = i / 65536 := by omega
    rw [hsame] at hlast
    cases hc : chunks[i / 65536]? with
    | none => simp [hc] at hlast
    | some chunk =>
      simp only [hc, Option.bind_some, isSome_getElem?] at hlast
      rw [if_pos hchunk, Option.map_some, Option.bind_some, getElem?_overwrite (by omega)]
      by_cases hin : offset ≤ i ∧ i < offset + part.length
      · have hsub : i % 65536 - offset % 65536 = i - offset := by omega
        rw [if_pos hin, if_pos (by omega), hsub]
      · rw [if_neg hin, if_neg (by omega), Option.bind_some]
  · rw [if_neg hchunk, if_neg (by omega)]

theorem byteIn?_overwriteChunks
    (hthere : ∀ i, offset ≤ i → i < offset + bytes.length → (byteIn? chunks i).isSome) (i : Nat) :
    byteIn? (overwriteChunks chunks offset bytes) i =
      if offset ≤ i ∧ i < offset + bytes.length then bytes[i - offset]? else byteIn? chunks i := by
  induction chunks, offset, bytes using overwriteChunks.induct with
  | case1 chunks offset bytes hempty =>
    have hnil : bytes = [] := List.isEmpty_iff.1 hempty
    rw [overwriteChunks, if_pos hempty, if_neg (by rw [hnil, List.length_nil]; omega)]
  | case2 chunks offset bytes hsome room later ih =>
    have hpart : (bytes.take room).length ≤ roomAt offset := List.length_take_le _ _
    have hfirst := @byteIn?_modify chunks offset _ hpart fun i hi hi' =>
      hthere i hi (Nat.lt_of_lt_of_le hi' (by rw [List.length_take]; omega))
    rw [overwriteChunks, if_neg hsome]
    rw [List.length_take] at hfirst
    refine (ih ?_).trans ?_
    · intro i hi hi'
      rw [List.length_drop] at hi'
      rw [hfirst, if_neg (by omega)]
      exact hthere i (by omega) (by omega)
    · rw [hfirst, List.length_drop]
      by_cases hlater : offset + room ≤ i ∧ i < offset + bytes.length
      · have hsub : room + (i - (offset + room)) = i - offset := by omega
        rw [if_pos (by omega), if_pos (by omega), List.getElem?_drop, hsub]
      · rw [if_neg (by omega)]
        by_cases hnow : offset ≤ i ∧ i < offset + bytes.length
        · rw [if_pos (by omega), if_pos hnow, List.getElem?_take_of_lt (by omega)]
        · rw [if_neg (by omega), if_neg hnow]

/-! ## Writing -/

lemma write_eq (a : Arena) (offset : Nat) (bytes : List UInt8) :
    a.write offset bytes =
      ⟨overwriteChunks (pushZeros (offset + bytes.length - a.size) a).chunks offset bytes,
        (pushZeros (offset + bytes.length - a.size) a).size⟩ := rfl

@[simp] lemma size_write (a : Arena) (offset : Nat) (bytes : List UInt8) :
    (a.write offset bytes).size = max a.size (offset + bytes.length) := by
  rw [write_eq, size_pushZeros]
  omega

lemma Chunked.write (h : a.Chunked) (offset : Nat) (bytes : List UInt8) :
    (a.write offset bytes).Chunked := by
  have hgrown := h.pushZeros (offset + bytes.length - a.size)
  have hsizes := sizes_overwriteChunks
    (Arena.pushZeros (offset + bytes.length - a.size) a).chunks offset bytes
  rw [write_eq]
  constructor
  · have hcount := congrArg Array.size hsizes
    rw [Array.size_map, Array.size_map] at hcount
    exact hcount.trans hgrown.count
  · intro number chunk hchunk
    have hsize := congrArg (·[number]?) hsizes
    simp only [Array.getElem?_map, hchunk, Option.map_some] at hsize
    obtain ⟨old, hold, hsame⟩ := Option.map_eq_some_iff.1 hsize.symm
    rw [← hsame]
    exact hgrown.filled number old hold

/-- **The bytes after a write.**  What lies between the old end and the first new byte is zero. -/
theorem byte?_write (h : a.Chunked) (offset : Nat) (bytes : List UInt8) (i : Nat) :
    (a.write offset bytes).byte? i =
      if offset ≤ i ∧ i < offset + bytes.length then bytes[i - offset]?
      else if a.size ≤ i ∧ i < offset then some 0
      else a.byte? i := by
  have hgrown := h.pushZeros (offset + bytes.length - a.size)
  have hzeros := byte?_pushZeros h (offset + bytes.length - a.size) i
  rw [byte?, write_eq, byteIn?_overwriteChunks]
  · split
    · rfl
    next hout =>
      refine hzeros.trans ?_
      by_cases hgap : a.size ≤ i ∧ i < offset
      · rw [if_pos (by omega), if_pos hgap]
      · rw [if_neg (by omega), if_neg hgap]
  · intro j hj hj'
    rw [← byte?, hgrown.isSome_byte?, size_pushZeros]
    omega

/-! ## Reading -/

/-- The chunk in which a row of bytes lies. -/
lemma exists_chunk {count : Nat} (hsome : 0 < count) (hroom : count ≤ roomAt offset)
    (hthere : ∀ i < count, (byteIn? chunks (offset + i)).isSome) :
    ∃ chunk, chunks[offset / chunkSize]? = some chunk ∧
      offset % chunkSize + count ≤ chunk.size := by
  have hlast := hthere (count - 1) (by omega)
  simp only [byteIn?, roomAt, chunkSize_eq] at *
  have hchunk : (offset + (count - 1)) / 65536 = offset / 65536 := by omega
  rw [hchunk] at hlast
  cases hc : chunks[offset / 65536]? with
  | none => simp [hc] at hlast
  | some chunk =>
    simp only [hc, Option.bind_some, isSome_getElem?] at hlast
    exact ⟨chunk, rfl, by omega⟩

theorem getElem?_slice {length : Nat}
    (hthere : ∀ i < length, (byteIn? chunks (offset + i)).isSome) (i : Nat) :
    (slice chunks offset length)[i]? =
      if i < length then byteIn? chunks (offset + i) else none := by
  induction offset, length using slice.induct chunks generalizing i with
  | case1 offset => rw [slice, if_pos rfl, if_neg (Nat.not_lt_zero i), List.getElem?_nil]
  | case2 offset length hsome count ih =>
    have hpos := roomAt_pos offset
    have hcount : 0 < count := by omega
    obtain ⟨chunk, hchunk, hsize⟩ := exists_chunk hcount (Nat.min_le_right _ _) fun i hi =>
      hthere i (by omega)
    have hrest := ih (fun i hi => by rw [Nat.add_assoc]; exact hthere _ (by omega)) (i - count)
    rw [slice, if_neg hsome, List.getElem?_append, Array.length_toList, Array.size_extract, hchunk,
      Option.getD_some]
    have hlength : min (offset % chunkSize + count) chunk.size - offset % chunkSize = count := by
      omega
    rw [hlength]
    by_cases hnow : i < count
    · rw [if_pos hnow, if_pos (by omega), Array.getElem?_toList, Array.getElem?_extract,
        if_pos (by omega), byteIn?]
      have hroom : count ≤ roomAt offset := Nat.min_le_right _ _
      simp only [roomAt, chunkSize_eq] at *
      have hsame : (offset + i) / 65536 = offset / 65536 := by omega
      have hwithin : (offset + i) % 65536 = offset % 65536 + i := by omega
      rw [hsame, hwithin, hchunk, Option.bind_some]
    · have hsum : offset + count + (i - count) = offset + i := by omega
      rw [if_neg hnow, hrest, hsum]
      by_cases hin : i < length
      · rw [if_pos (by omega), if_pos hin]
      · rw [if_neg (by omega), if_neg hin]

lemma length_slice {length : Nat}
    (hthere : ∀ i < length, (byteIn? chunks (offset + i)).isSome) :
    (slice chunks offset length).length = length := by
  have hslice := getElem?_slice hthere
  refine Nat.le_antisymm ?_ (Nat.le_of_not_lt ?_)
  · rw [← List.getElem?_eq_none_iff, hslice, if_neg (Nat.lt_irrefl _)]
  · intro hlt
    have hend := hslice (slice chunks offset length).length
    rw [if_pos hlt, List.getElem?_eq_none (Nat.le_refl _)] at hend
    simpa [← hend] using hthere _ hlt

/-- A row of bytes lies at an offset. -/
def Has (a : Arena) (offset : Nat) (bytes : List UInt8) : Prop :=
  offset + bytes.length ≤ a.size ∧ ∀ i < bytes.length, a.byte? (offset + i) = bytes[i]?

lemma spans_iff {length : Nat} : a.spans offset length = true ↔ offset + length ≤ a.size :=
  decide_eq_true_iff

/-- **A reader gets the bytes that lie at its offset.** -/
theorem slice_eq_iff (h : a.Chunked) {length : Nat} (hspan : offset + length ≤ a.size) :
    slice a.chunks offset length = bytes ↔ bytes.length = length ∧ a.Has offset bytes := by
  have hthere : ∀ i < length, (byteIn? a.chunks (offset + i)).isSome := fun i hi =>
    (h.isSome_byte? (offset + i)).2 (by omega)
  have hslice := getElem?_slice hthere
  constructor
  · rintro rfl
    have hlength := length_slice hthere
    refine ⟨hlength, by omega, ?_⟩
    intro i hi
    rw [hslice, if_pos (by omega)]
    rfl
  · rintro ⟨rfl, -, hbytes⟩
    refine List.ext_getElem? ?_
    intro i
    rw [hslice]
    split
    next hi => exact hbytes i hi
    next hi => rw [List.getElem?_eq_none (by omega)]

theorem read?_eq_some_iff (h : a.Chunked) {length : Nat} :
    a.read? offset length = some bytes ↔ bytes.length = length ∧ a.Has offset bytes := by
  rw [read?]
  split
  next hspan => rw [Option.some.injEq, slice_eq_iff h (spans_iff.1 hspan)]
  next hspan =>
    constructor
    · intro hread
      cases hread
    · rintro ⟨rfl, hhas⟩
      exact absurd (spans_iff.2 hhas.1) hspan

theorem holds_iff (h : a.Chunked) : a.holds offset bytes = true ↔ a.Has offset bytes := by
  rw [Arena.holds, Bool.and_eq_true, spans_iff, beq_iff_eq]
  constructor
  · rintro ⟨hspan, hslice⟩
    exact ((slice_eq_iff h hspan).1 hslice).2
  · intro hhas
    exact ⟨hhas.1, (slice_eq_iff h hhas.1).2 ⟨rfl, hhas⟩⟩

lemma readByte?_eq_some_iff (h : a.Chunked) {byte : UInt8} :
    a.readByte? offset = some byte ↔ a.Has offset [byte] := by
  rw [readByte?, Option.bind_eq_some_iff]
  constructor
  · rintro ⟨bytes, hread, hhead⟩
    obtain ⟨hlength, hhas⟩ := (read?_eq_some_iff h).1 hread
    obtain ⟨only, rfl⟩ := List.length_eq_one_iff.1 hlength
    obtain rfl := Option.some.inj hhead
    exact hhas
  · intro hhas
    exact ⟨[byte], (read?_eq_some_iff h).2 ⟨rfl, hhas⟩, rfl⟩

/-- A number that lies at an offset is read back. -/
lemma readNat?_of_has (h : a.Chunked) {width n : Nat} (hwidth : width ≤ 8)
    (hfits : n < Nat.pow 256 width) (hhas : a.Has offset (littleEndian width n)) :
    a.readNat? offset width = some n := by
  have hread := (read?_eq_some_iff h).2 ⟨length_littleEndian width n, hhas⟩
  rw [readNat?, if_pos hwidth, hread, Option.map_some, ofLittleEndian_littleEndian,
    Nat.mod_eq_of_lt hfits]

/-! ## What stays -/

lemma has_append : a.Has offset (bytes ++ more) ↔
    a.Has offset bytes ∧ a.Has (offset + bytes.length) more := by
  constructor
  · rintro ⟨hspan, hbytes⟩
    rw [List.length_append] at hspan hbytes
    refine ⟨⟨by omega, ?_⟩, ⟨by omega, ?_⟩⟩
    · intro i hi
      rw [hbytes i (by omega), List.getElem?_append_left hi]
    · intro i hi
      rw [Nat.add_assoc, hbytes _ (by omega), List.getElem?_append_right (by omega),
        Nat.add_sub_cancel_left]
  · rintro ⟨⟨hspan, hbytes⟩, ⟨hspan', hmore⟩⟩
    rw [Has, List.length_append]
    refine ⟨by omega, ?_⟩
    intro i hi
    by_cases hin : i < bytes.length
    · rw [hbytes i hin, List.getElem?_append_left hin]
    · have hi' := hmore (i - bytes.length) (by omega)
      have hsum : offset + bytes.length + (i - bytes.length) = offset + i := by omega
      rw [← hsum, hi', List.getElem?_append_right (by omega)]

lemma has_cons {byte : UInt8} :
    a.Has offset (byte :: bytes) ↔ a.Has offset [byte] ∧ a.Has (offset + 1) bytes :=
  @has_append a offset [byte] bytes

/-- What is written lies there. -/
theorem has_write (h : a.Chunked) (offset : Nat) (bytes : List UInt8) :
    (a.write offset bytes).Has offset bytes := by
  refine ⟨by rw [size_write]; omega, ?_⟩
  intro i hi
  rw [byte?_write h, if_pos (by omega), Nat.add_sub_cancel_left]

/-- **A write leaves the rows beside it alone.** -/
theorem Has.write (hhas : a.Has offset bytes) (h : a.Chunked) {start : Nat} (more : List UInt8)
    (hbeside : offset + bytes.length ≤ start ∨ start + more.length ≤ offset) :
    (a.write start more).Has offset bytes := by
  obtain ⟨hspan, hbytes⟩ := hhas
  refine ⟨by rw [size_write]; omega, ?_⟩
  intro i hi
  rw [byte?_write h, if_neg (by omega), if_neg (by omega), hbytes i hi]

/-! ## All bytes in one row -/

/-- A place in a row of pieces, all of which are full but the last. -/
lemma getElem?_flatten_full {full : Nat} (hpos : 0 < full) {pieces : List (List UInt8)}
    (hfull : ∀ (number : Nat) (piece : List UInt8), pieces[number]? = some piece →
      piece.length ≤ full ∧ (number + 1 < pieces.length → piece.length = full)) (i : Nat) :
    pieces.flatten[i]? = pieces[i / full]?.bind (·[i % full]?) := by
  induction pieces generalizing i with
  | nil => rfl
  | cons piece pieces ih =>
    obtain ⟨hle, hlast⟩ := hfull 0 piece rfl
    have hpieces : ∀ (number : Nat) (other : List UInt8), pieces[number]? = some other →
        other.length ≤ full ∧ (number + 1 < pieces.length → other.length = full) := by
      intro number other hother
      have := hfull (number + 1) other hother
      simpa using this
    rw [List.flatten_cons, List.getElem?_append]
    split
    next hlt =>
      have hi : i < full := Nat.lt_of_lt_of_le hlt hle
      rw [Nat.div_eq_of_lt hi, Nat.mod_eq_of_lt hi, List.getElem?_cons_zero, Option.bind_some]
    next hge =>
      rw [ih hpieces]
      rcases Nat.lt_or_ge i full with hi | hi
      · -- the piece is not full, so it is the last one
        obtain rfl : pieces = [] := by
          cases pieces with
          | nil => rfl
          | cons => have := hlast (by simp); omega
        rw [Nat.div_eq_of_lt hi, Nat.mod_eq_of_lt hi, List.getElem?_cons_zero, Option.bind_some,
          List.getElem?_eq_none (Nat.le_of_not_lt hge)]
        rfl
      · have hquotient : i / full = (i - full) / full + 1 := Nat.div_eq_sub_div hpos hi
        rw [hquotient, List.getElem?_cons_succ]
        cases pieces with
        | nil => rfl
        | cons => rw [hlast (by simp), ← Nat.mod_eq_sub_mod hi]

/-- The row of an arena has its bytes. -/
theorem Chunked.getElem?_toList (h : a.Chunked) (i : Nat) : a.toList[i]? = a.byte? i := by
  have hrow : a.toList = (a.chunks.toList.map Array.toList).flatten := List.flatMap_def
  rw [hrow, getElem?_flatten_full (show 0 < chunkSize by decide)]
  · rw [byte?, byteIn?, List.getElem?_map, Array.getElem?_toList]
    cases a.chunks[i / chunkSize]? with
    | none => rfl
    | some chunk => exact Array.getElem?_toList
  · intro number piece hpiece
    rw [List.getElem?_map, Array.getElem?_toList, Option.map_eq_some_iff] at hpiece
    obtain ⟨chunk, hchunk, rfl⟩ := hpiece
    have hcount := h.count
    have hsize := h.filled number chunk hchunk
    have hlt := (Array.getElem?_eq_some_iff.1 hchunk).1
    simp only [Array.length_toList, List.length_map, chunkSize_eq] at *
    omega

lemma Chunked.length_toList (h : a.Chunked) : a.toList.length = a.size := by
  have hlt : ∀ i, i < a.toList.length ↔ i < a.size := by
    intro i
    rw [← h.isSome_byte?, ← h.getElem?_toList, isSome_getElem?]
  refine Nat.le_antisymm ?_ ?_
  · exact Nat.le_of_not_lt fun hless => Nat.lt_irrefl _ ((hlt _).1 hless)
  · exact Nat.le_of_not_lt fun hless => Nat.lt_irrefl _ ((hlt _).2 hless)

/-- A row of bytes lies at an offset of the arena if it stands there in its row. -/
lemma Chunked.has_iff (h : a.Chunked) : a.Has offset bytes ↔
    offset + bytes.length ≤ a.toList.length ∧ (a.toList.drop offset).take bytes.length = bytes := by
  rw [Has, h.length_toList]
  refine and_congr_right ?_
  intro hspan
  rw [List.ext_getElem?_iff]
  constructor
  · intro hbytes i
    rw [List.getElem?_take, List.getElem?_drop, h.getElem?_toList]
    split
    next hi => exact hbytes i hi
    next hi => rw [List.getElem?_eq_none (Nat.le_of_not_lt hi)]
  · intro hbytes i hi
    rw [← hbytes i, List.getElem?_take, if_pos hi, List.getElem?_drop, h.getElem?_toList]

/-! ## Readers stay inside -/

/-- **Reading an arena is reading a part of its row.**  A range that is not within the row is
refused, and a range that is not refused has a byte at each of its places. -/
structure Confined (a : Arena) : Prop where
  inside : ∀ {offset length : Nat}, a.spans offset length = true →
    ∀ i < length, (a.byte? (offset + i)).isSome
  read? : ∀ offset length : Nat, a.read? offset length =
    if offset + length ≤ a.toList.length then some ((a.toList.drop offset).take length) else none
  holds : ∀ (offset : Nat) (bytes : List UInt8), a.holds offset bytes = true ↔
    offset + bytes.length ≤ a.toList.length ∧ (a.toList.drop offset).take bytes.length = bytes

theorem Chunked.confined (h : a.Chunked) : a.Confined where
  inside := by
    intro offset length hspan i hi
    rw [h.isSome_byte?]
    have := spans_iff.1 hspan
    omega
  read? := by
    intro offset length
    split
    next hspan =>
      have hlength : ((a.toList.drop offset).take length).length = length := by
        rw [List.length_take, List.length_drop]
        omega
      rw [read?_eq_some_iff h, h.has_iff, hlength]
      exact ⟨rfl, hspan, rfl⟩
    next hbeyond =>
      rw [h.length_toList, ← spans_iff] at hbeyond
      rw [Arena.read?, if_neg hbeyond]
  holds := by
    intro offset bytes
    rw [holds_iff h, h.has_iff]

end Arena

end QuadBase.Dictionary
