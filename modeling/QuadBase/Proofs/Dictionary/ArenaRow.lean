import Mathlib.Algebra.BigOperators.Intervals
import Mathlib.Algebra.BigOperators.Ring.Finset
import Mathlib.Tactic.Ring
import QuadBase.Proofs.Dictionary.Layout

/-!
# An arena is one row of bytes

Whatever has been written into an arena, at whatever offsets and across however many chunks, it
reads as the row of bytes that the same writes give: later bytes lie over earlier ones, and what has
been skipped is zero.

* `overlay` — what a write does to a row, and `Chunked.toList_write` — that it does so to an arena.
* `segments` — the parts of a range, one for each chunk that it meets.  All loops go along them.
* `readAlong?_segments`, `overwriteAlong?_segments`, `compareAlong?_segments` — the loops with every
  access checked come to the same results, so **no access is out of range.**
* `written_flat` — **the readers of an arena are the readers of its row.**
-/

namespace QuadBase.Dictionary

/-! ## Rows -/

/-- The row with some bytes laid over it from `offset` on, behind zeros if it is too short. -/
def overlay (row : List UInt8) (offset : Nat) (bytes : List UInt8) : List UInt8 :=
  row.take offset ++ List.replicate (offset - row.length) 0 ++ bytes ++
    row.drop (offset + bytes.length)

namespace Arena

variable {a : Arena} {chunks : Array (Array UInt8)} {bytes row : List UInt8} {offset length : Nat}

/-- The byte at each place once some bytes have been laid over a row. -/
lemma getElem?_overlay (row : List UInt8) (offset : Nat) (bytes : List UInt8) (i : Nat) :
    (overlay row offset bytes)[i]? =
      if offset ≤ i ∧ i < offset + bytes.length then bytes[i - offset]?
      else if row.length ≤ i ∧ i < offset then some 0
      else row[i]? := by
  have hfront : (row.take offset ++ List.replicate (offset - row.length) (0 : UInt8)).length =
      offset := by
    rw [List.length_append, List.length_take, List.length_replicate]
    omega
  rw [overlay]
  rcases Nat.lt_or_ge i offset with hlt | hge
  · rw [if_neg (by omega), List.append_assoc, List.getElem?_append_left (by omega)]
    rcases Nat.lt_or_ge i row.length with hrow | hgap
    · rw [if_neg (by omega), List.getElem?_append_left (by rw [List.length_take]; omega),
        List.getElem?_take_of_lt hlt]
    · rw [if_pos ⟨hgap, hlt⟩, List.getElem?_append_right (by rw [List.length_take]; omega),
        List.getElem?_replicate_of_lt (by rw [List.length_take]; omega)]
  · rcases Nat.lt_or_ge i (offset + bytes.length) with hin | hbehind
    · rw [if_pos ⟨hge, hin⟩, List.getElem?_append_left (by rw [List.length_append]; omega),
        List.getElem?_append_right (by omega), hfront]
    · have hsum : offset + bytes.length + (i - (offset + bytes.length)) = i := by omega
      rw [if_neg (by omega), if_neg (by omega),
        List.getElem?_append_right (by rw [List.length_append]; omega), List.length_append, hfront,
        List.getElem?_drop, hsum]

/-- **A write lays its bytes over the row of the arena.** -/
theorem Chunked.toList_write (h : a.Chunked) (offset : Nat) (bytes : List UInt8) :
    (a.write offset bytes).toList = overlay a.toList offset bytes := by
  refine List.ext_getElem? ?_
  intro i
  rw [(h.write offset bytes).getElem?_toList, byte?_write h, getElem?_overlay, h.length_toList,
    h.getElem?_toList]

/-! ## Histories -/

/-- A call of a writer. -/
inductive Writing where
  | write (offset : Nat) (bytes : List UInt8)
  | append (bytes : List UInt8)

/-- The arena after a call. -/
def Writing.run (a : Arena) : Writing → Arena
  | .write offset bytes => a.write offset bytes
  | .append bytes => a.append bytes

/-- What a call does to a row of bytes. -/
def Writing.lay (row : List UInt8) : Writing → List UInt8
  | .write offset bytes => overlay row offset bytes
  | .append bytes => row ++ bytes

/-- The arena after some calls. -/
def written (writings : List Writing) : Arena :=
  writings.foldl Writing.run {}

/-- The row of bytes that some calls give. -/
def rowOf (writings : List Writing) : List UInt8 :=
  writings.foldl Writing.lay []

lemma Chunked.run (h : a.Chunked) (writing : Writing) : (writing.run a).Chunked := by
  cases writing with
  | write offset bytes => exact h.write offset bytes
  | append bytes => exact h.write a.size bytes

lemma Chunked.toList_run (h : a.Chunked) (writing : Writing) :
    (writing.run a).toList = writing.lay a.toList := by
  cases writing with
  | write offset bytes => exact h.toList_write offset bytes
  | append bytes => exact toList_append h bytes

/-- **An arena holds the row that its writers have given.** -/
theorem written_row (writings : List Writing) :
    (written writings).Chunked ∧ (written writings).toList = rowOf writings := by
  suffices hfrom : ∀ {a : Arena}, a.Chunked → (writings.foldl Writing.run a).Chunked ∧
      (writings.foldl Writing.run a).toList = writings.foldl Writing.lay a.toList from
    hfrom chunked_empty
  induction writings with
  | nil => exact fun h => ⟨h, rfl⟩
  | cons writing writings ih =>
    intro a h
    have hrest := ih (h.run writing)
    rwa [h.toList_run writing] at hrest

/-! ## One chunk after the other -/

/-- A part of a chunk. -/
structure Segment where
  chunk : Nat
  /-- Where it begins in the chunk. -/
  within : Nat
  count : Nat

/-- The parts of a range, one for each chunk that it meets. -/
def segments (offset length : Nat) : List Segment :=
  if length = 0 then []
  else
    let count := min length (roomAt offset)
    ⟨offset / chunkSize, offset % chunkSize, count⟩ :: segments (offset + count) (length - count)
  termination_by length
  decreasing_by
    have := roomAt_pos offset
    omega

/-- The chunk of a segment, if there is one with as many bytes. -/
def chunkOf? (chunks : Array (Array UInt8)) (s : Segment) : Option (Array UInt8) :=
  (chunks[s.chunk]?).filter fun chunk => s.within + s.count ≤ chunk.size

/-- The bytes of some segments. -/
def readAlong? (chunks : Array (Array UInt8)) : List Segment → Option (List UInt8)
  | [] => some []
  | s :: rest => do
    let chunk ← chunkOf? chunks s
    let more ← readAlong? chunks rest
    return (chunk.extract s.within (s.within + s.count)).toList ++ more

/-- Overwrites some segments. -/
def overwriteAlong? (chunks : Array (Array UInt8)) (bytes : List UInt8) :
    List Segment → Option (Array (Array UInt8))
  | [] => some chunks
  | s :: rest => do
    let chunk ← chunkOf? chunks s
    overwriteAlong? (chunks.setIfInBounds s.chunk (overwrite chunk s.within (bytes.take s.count)))
      (bytes.drop s.count) rest

/-- Compares some segments with bytes, up to the first that differs. -/
def compareAlong? (chunks : Array (Array UInt8)) (bytes : List UInt8) :
    List Segment → Option Bool
  | [] => some true
  | s :: rest => do
    let chunk ← chunkOf? chunks s
    if (chunk.extract s.within (s.within + s.count)).toList = bytes.take s.count then
      compareAlong? chunks (bytes.drop s.count) rest
    else return false

/-- All bytes of a range are there. -/
def Present (chunks : Array (Array UInt8)) (offset length : Nat) : Prop :=
  ∀ i < length, (byteIn? chunks (offset + i)).isSome

lemma Present.rest (h : Present chunks offset length) (count : Nat) :
    Present chunks (offset + count) (length - count) := by
  intro i hi
  rw [Nat.add_assoc]
  exact h _ (by omega)

/-- The chunk of the first segment of a range. -/
lemma Present.chunkOf? (h : Present chunks offset length) (hsome : length ≠ 0) :
    ∃ chunk, chunks[offset / chunkSize]? = some chunk ∧
      Arena.chunkOf? chunks ⟨offset / chunkSize, offset % chunkSize, min length (roomAt offset)⟩ =
        some chunk := by
  have hpos := roomAt_pos offset
  have hfirst : ∀ i < min length (roomAt offset), (byteIn? chunks (offset + i)).isSome :=
    fun i hi => h i (by omega)
  obtain ⟨chunk, hchunk, hsize⟩ :=
    exists_chunk (show 0 < min length (roomAt offset) by omega) (Nat.min_le_right _ _) hfirst
  refine ⟨chunk, hchunk, ?_⟩
  rw [Arena.chunkOf?, hchunk, Option.filter_some, if_pos (by simpa using hsize)]

/-- **Reading a range finds a chunk with the bytes at each of its segments.** -/
theorem readAlong?_segments (h : Present chunks offset length) :
    readAlong? chunks (segments offset length) = some (slice chunks offset length) := by
  induction offset, length using slice.induct chunks with
  | case1 offset => rw [segments, if_pos rfl, slice, if_pos rfl, readAlong?]
  | case2 offset length hsome count ih =>
    obtain ⟨chunk, hget, hchunk⟩ := h.chunkOf? hsome
    rw [segments, if_neg hsome, slice, if_neg hsome, readAlong?, hchunk, ih (h.rest count), hget]
    rfl

/-- Overwriting bytes that are there takes none away. -/
lemma Present.modify (h : Present chunks offset length) (number position : Nat)
    (bytes : List UInt8) :
    Present (chunks.modify number (overwrite · position bytes)) offset length := by
  intro i hi
  have hold := h i hi
  rw [byteIn?, Array.getElem?_modify]
  rw [byteIn?] at hold
  split
  · cases hchunk : chunks[(offset + i) / chunkSize]? with
    | none =>
      rw [hchunk] at hold
      cases hold
    | some chunk =>
      rw [hchunk] at hold
      simpa using hold
  · exact hold

lemma segments_nil (offset : Nat) : segments offset 0 = [] := by
  rw [segments, if_pos rfl]

/-- **Overwriting a range finds a chunk with room at each of its segments.** -/
theorem overwriteAlong?_segments (h : Present chunks offset bytes.length) :
    overwriteAlong? chunks bytes (segments offset bytes.length) =
      some (overwriteChunks chunks offset bytes) := by
  induction chunks, offset, bytes using overwriteChunks.induct with
  | case1 chunks offset bytes hempty =>
    obtain rfl := List.isEmpty_iff.1 hempty
    rw [List.length_nil, segments_nil, overwriteChunks, if_pos hempty, overwriteAlong?]
  | case2 chunks offset bytes hsome room later ih =>
    have hlength : bytes.length ≠ 0 := fun h => hsome (List.isEmpty_iff_length_eq_zero.2 h)
    obtain ⟨chunk, hget, hchunk⟩ := h.chunkOf? hlength
    -- the loop counts the bytes of the last chunk as if it were full
    have htake : bytes.take (min bytes.length room) = bytes.take room := by
      rw [Nat.min_comm, ← List.take_eq_take_min]
    have hdrop : bytes.drop (min bytes.length room) = bytes.drop room := by
      rcases Nat.le_total bytes.length room with hle | hle
      · rw [Nat.min_eq_left hle, List.drop_length, List.drop_eq_nil_of_le hle]
      · rw [Nat.min_eq_right hle]
    have hsegments : segments (offset + min bytes.length room)
        (bytes.length - min bytes.length room) =
          segments (offset + room) (bytes.drop room).length := by
      rw [List.length_drop]
      rcases Nat.le_total bytes.length room with hle | hle
      · rw [Nat.min_eq_left hle, Nat.sub_self, Nat.sub_eq_zero_of_le hle, segments_nil,
          segments_nil]
      · rw [Nat.min_eq_right hle]
    have hlater : chunks.setIfInBounds (offset / chunkSize)
        (overwrite chunk (offset % chunkSize) (bytes.take room)) = later := by
      refine Array.ext_getElem? ?_
      intro i
      rw [Array.getElem?_setIfInBounds, Array.getElem?_modify]
      split
      next heq =>
        subst heq
        rw [if_pos (Array.getElem?_eq_some_iff.1 hget).1, hget, Option.map_some]
      next => rfl
    have hrest : Present later (offset + room) (bytes.drop room).length := by
      rw [List.length_drop]
      exact (h.modify _ _ _).rest room
    rw [segments, if_neg hlength, overwriteChunks, if_neg hsome, overwriteAlong?, hchunk]
    simp only [Option.bind_eq_bind, Option.bind_some]
    rw [htake, hdrop, hsegments, hlater]
    exact ih hrest

/-- A row in two parts is compared part by part. -/
lemma append_beq_eq {part rest : List UInt8} {count : Nat} (hpart : part.length = count)
    (hle : count ≤ bytes.length) : (part ++ rest == bytes) =
      if part = bytes.take count then rest == bytes.drop count else false := by
  have hlength : part.length = (bytes.take count).length := by
    rw [hpart, List.length_take, Nat.min_eq_left hle]
  have hboth : part ++ rest = bytes ↔ part = bytes.take count ∧ rest = bytes.drop count := by
    constructor
    · intro h
      rw [← List.take_append_drop count bytes] at h
      exact List.append_inj h hlength
    · rintro ⟨rfl, rfl⟩
      exact List.take_append_drop count bytes
  rw [Bool.eq_iff_iff, beq_iff_eq, hboth]
  split
  next hsame => simp [← hsame]
  next hdiffer => simp [hdiffer]

/-- **Comparing a range finds a chunk with the bytes at each segment that it comes to.** -/
theorem compareAlong?_segments (h : Present chunks offset length) :
    ∀ bytes : List UInt8, bytes.length = length →
      compareAlong? chunks bytes (segments offset length) =
        some (slice chunks offset length == bytes) := by
  induction offset, length using slice.induct chunks with
  | case1 offset =>
    intro bytes hlength
    obtain rfl := List.eq_nil_of_length_eq_zero hlength
    rw [segments_nil, slice, if_pos rfl, compareAlong?]
    rfl
  | case2 offset length hsome count ih =>
    intro bytes hlength
    obtain ⟨chunk, hget, hchunk⟩ := h.chunkOf? hsome
    have hsize : offset % chunkSize + count ≤ chunk.size := by
      have hfilter := Option.filter_eq_some_iff.1 hchunk
      simpa using hfilter.2
    have hpart : (chunk.extract (offset % chunkSize) (offset % chunkSize + count)).toList.length =
        count := by
      rw [Array.length_toList, Array.size_extract]
      omega
    have hrest := ih (h.rest count) (bytes.drop count) (by rw [List.length_drop, hlength])
    rw [segments, if_neg hsome, slice, if_neg hsome, compareAlong?, hchunk, hget, Option.getD_some,
      append_beq_eq hpart (by omega)]
    simp only [Option.bind_eq_bind, Option.bind_some]
    split
    · exact hrest
    · rfl

/-! ## Numbers -/

/-- A number is the sum of its bytes, each with the weight of its place. -/
lemma ofLittleEndian_eq_sum (bytes : List UInt8) :
    ofLittleEndian bytes =
      ∑ i ∈ Finset.range bytes.length, (bytes[i]?.getD 0).toNat * 256 ^ i := by
  induction bytes with
  | nil => rfl
  | cons byte bytes ih =>
    rw [ofLittleEndian, ih, List.length_cons, Finset.sum_range_succ', Finset.mul_sum, Nat.add_comm]
    refine congrArg₂ (· + ·) (Finset.sum_congr rfl fun i _ => ?_) (by simp)
    rw [List.getElem?_cons_succ, Nat.pow_succ]
    ring

/-! ## Arenas as rows -/

/-- The readers answer from the row, and refuse what is not within it. -/
structure ReadsAs (a : Arena) (row : List UInt8) : Prop where
  size_eq : a.size = row.length
  read? : ∀ offset length, a.read? offset length =
    if offset + length ≤ row.length then some ((row.drop offset).take length) else none
  readByte? : ∀ offset, a.readByte? offset = row[offset]?
  /-- The least significant byte comes first. -/
  readNat? : ∀ offset width, a.readNat? offset width =
    if width ≤ 8 ∧ offset + width ≤ row.length then
      some (∑ i ∈ Finset.range width, (row[offset + i]?.getD 0).toNat * 256 ^ i)
    else none
  holds : ∀ offset bytes, a.holds offset bytes = true ↔
    offset + bytes.length ≤ row.length ∧ (row.drop offset).take bytes.length = bytes
  /-- As machine words, the offset and the length of a range that is accepted do not overflow. -/
  spans : row.length < UInt64.size → ∀ offset length : UInt64,
    a.spans offset.toNat length.toNat = true ↔
      offset.toNat + length.toNat < UInt64.size ∧ (offset + length).toNat ≤ row.length

/-- The loops find every chunk that they look for, with as many bytes as they need. -/
structure InRange (a : Arena) : Prop where
  read : ∀ {offset length}, a.spans offset length = true →
    readAlong? a.chunks (segments offset length) = a.read? offset length
  holds : ∀ {offset bytes}, a.spans offset bytes.length = true →
    compareAlong? a.chunks bytes (segments offset bytes.length) = some (a.holds offset bytes)
  write : ∀ offset bytes,
    overwriteAlong? (pushZeros (offset + bytes.length - a.size) a).chunks bytes
      (segments offset bytes.length) = some (a.write offset bytes).chunks
  /-- The chunk that is not full is there to grow. -/
  grow : a.size % chunkSize ≠ 0 → a.size / chunkSize < a.chunks.size

lemma Chunked.present (h : a.Chunked) (hspan : offset + length ≤ a.size) :
    Present a.chunks offset length := by
  intro i hi
  rw [← byte?, h.isSome_byte?]
  omega

theorem Chunked.readsAs (h : a.Chunked) : a.ReadsAs a.toList where
  size_eq := h.length_toList.symm
  read? := h.confined.read?
  readByte? offset := by
    rw [Arena.readByte?, h.confined.read?]
    split
    next hspan =>
      rw [Option.bind_some, List.head?_take, if_neg Nat.one_ne_zero, List.head?_drop]
    next hbeyond => rw [Option.bind_none, List.getElem?_eq_none (by omega)]
  readNat? offset width := by
    rw [Arena.readNat?, h.confined.read?]
    by_cases hwidth : width ≤ 8
    · by_cases hspan : offset + width ≤ a.toList.length
      · have hlength : ((a.toList.drop offset).take width).length = width := by
          rw [List.length_take, List.length_drop]
          omega
        rw [if_pos hwidth, if_pos hspan, if_pos ⟨hwidth, hspan⟩, Option.map_some,
          ofLittleEndian_eq_sum, hlength]
        refine congrArg some (Finset.sum_congr rfl fun i hi => ?_)
        rw [List.getElem?_take_of_lt (Finset.mem_range.1 hi), List.getElem?_drop]
      · rw [if_pos hwidth, if_neg hspan, if_neg fun both => hspan both.2, Option.map_none]
    · rw [if_neg hwidth, if_neg fun both => hwidth both.1]
  holds := h.confined.holds
  spans hsize offset length := by
    rw [spans_iff, h.length_toList] at *
    constructor
    · intro hspan
      have hfits : offset.toNat + length.toNat < UInt64.size := by omega
      exact ⟨hfits, by rwa [UInt64.toNat_add, Nat.mod_eq_of_lt hfits]⟩
    · rintro ⟨hfits, hle⟩
      rwa [UInt64.toNat_add, Nat.mod_eq_of_lt hfits] at hle

theorem Chunked.inRange (h : a.Chunked) : a.InRange where
  read hspan := by
    rw [Arena.read?, if_pos hspan, readAlong?_segments (h.present (spans_iff.1 hspan))]
  holds hspan := by
    rw [compareAlong?_segments (h.present (spans_iff.1 hspan)) _ rfl, Arena.holds, hspan,
      Bool.true_and]
  write offset bytes := by
    have hgrown := h.pushZeros (offset + bytes.length - a.size)
    rw [overwriteAlong?_segments (hgrown.present (by rw [size_pushZeros]; omega))]
    rfl
  grow hpartial := by
    have hcount := h.count
    simp only [chunkSize_eq] at hpartial hcount ⊢
    omega

/-- **An arena is one row of bytes**, whatever has been written into it: every reader answers from
the row that the same writes give, and no loop of a reader or a writer looks for a chunk or a byte
that is not there. -/
theorem written_flat (writings : List Writing) :
    (written writings).ReadsAs (rowOf writings) ∧ (written writings).InRange := by
  obtain ⟨hchunked, hrow⟩ := written_row writings
  have hreads := hchunked.readsAs
  rw [hrow] at hreads
  exact ⟨hreads, hchunked.inRange⟩

example : rowOf [.write 3 [7], .append [8, 9], .write 0 [1]] = [1, 0, 0, 7, 8, 9] := by decide

end Arena

end QuadBase.Dictionary
