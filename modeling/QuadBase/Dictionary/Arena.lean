/-!
# Byte arenas

An arena is a growing row of bytes addressed by offset.  It is kept in chunks of 64 KiB, all full
but the last, so that growing never moves what is there and copies of an arena share the chunks that
neither side has written since.

Bytes may be written anywhere; what lies between the old end and the first new byte becomes zero.  A
read has to lie within the written bytes.

* `Arena.toList` — the bytes of an arena in one row.
* `Arena.write`, `Arena.append` — the writers.
* `Arena.read?`, `Arena.readNat?`, `Arena.holds` — the readers: bytes, little-endian numbers, and
  comparison in place.
-/

namespace QuadBase.Dictionary

/-- A growing row of bytes. -/
structure Arena where
  chunks : Array (Array UInt8) := #[]
  /-- The number of bytes. -/
  size : Nat := 0

namespace Arena

/-- The number of bytes of a full chunk. -/
def chunkSize : Nat := Nat.pow 2 16

/-- The bytes in one row. -/
def toList (a : Arena) : List UInt8 :=
  a.chunks.toList.flatMap Array.toList

/-- Adds a zero at the end, in a new chunk if the last one is full. -/
def pushZero (a : Arena) : Arena :=
  let ⟨chunks, size⟩ := a
  if size % chunkSize = 0 then ⟨chunks.push #[0], size + 1⟩
  else ⟨chunks.modify (size / chunkSize) (·.push 0), size + 1⟩

/-- Grows an arena by zeros, one after the other.  Storage may as well be provided in whole chunks of
zeros, with `size` kept beside them: the bytes behind `size` are never read, and are still zero when
the arena grows over them. -/
def pushZeros : (count : Nat) → Arena → Arena
  | 0, a => a
  | count + 1, a => pushZeros count a.pushZero

/-- Overwrites the bytes of a chunk from `position` on. -/
def overwrite (chunk : Array UInt8) (position : Nat) : List UInt8 → Array UInt8
  | [] => chunk
  | byte :: bytes => overwrite (chunk.setIfInBounds position byte) (position + 1) bytes

/-- The number of bytes from `offset` on that lie in the chunk of `offset`. -/
def roomAt (offset : Nat) : Nat :=
  chunkSize - offset % chunkSize

theorem roomAt_pos (offset : Nat) : 0 < roomAt offset := by
  have := Nat.mod_lt offset (show 0 < chunkSize by decide)
  unfold roomAt
  omega

/-- Overwrites bytes that are there, one chunk after the other. -/
def overwriteChunks (chunks : Array (Array UInt8)) (offset : Nat) (bytes : List UInt8) :
    Array (Array UInt8) :=
  if bytes.isEmpty then chunks
  else
    let room := roomAt offset
    let chunks :=
      chunks.modify (offset / chunkSize) (overwrite · (offset % chunkSize) (bytes.take room))
    overwriteChunks chunks (offset + room) (bytes.drop room)
  termination_by bytes.length
  decreasing_by
    have := roomAt_pos offset
    cases bytes with
    | nil => contradiction
    | cons => simp only [List.length_drop, List.length_cons]; omega

/-- Writes bytes at an offset, growing the arena as needed. -/
def write (a : Arena) (offset : Nat) (bytes : List UInt8) : Arena :=
  let ⟨chunks, size⟩ := pushZeros (offset + bytes.length - a.size) a
  ⟨overwriteChunks chunks offset bytes, size⟩

def append (a : Arena) (bytes : List UInt8) : Arena :=
  a.write a.size bytes

/-- Whether `length` bytes from `offset` on have been written. -/
def spans (a : Arena) (offset length : Nat) : Bool :=
  offset + length ≤ a.size

/-- `length` bytes from `offset` on, one chunk after the other. -/
def slice (chunks : Array (Array UInt8)) (offset length : Nat) : List UInt8 :=
  if length = 0 then []
  else
    let count := min length (roomAt offset)
    let within := offset % chunkSize
    let part := (chunks[offset / chunkSize]?.getD #[]).extract within (within + count)
    part.toList ++ slice chunks (offset + count) (length - count)
  termination_by length
  decreasing_by
    have := roomAt_pos offset
    omega

/-- `length` bytes from `offset` on, if they have been written. -/
def read? (a : Arena) (offset length : Nat) : Option (List UInt8) :=
  if a.spans offset length then some (slice a.chunks offset length) else none

/-- The byte at `offset`, if it has been written. -/
def readByte? (a : Arena) (offset : Nat) : Option UInt8 :=
  (a.read? offset 1).bind List.head?

/-- The number that a row of bytes stands for, the least significant byte first. -/
def ofLittleEndian : List UInt8 → Nat
  | [] => 0
  | byte :: bytes => byte.toNat + 256 * ofLittleEndian bytes

/-- The number of `width` bytes from `offset` on, of at most eight bytes. -/
def readNat? (a : Arena) (offset width : Nat) : Option Nat :=
  if width ≤ 8 then (a.read? offset width).map ofLittleEndian else none

/-- Whether the bytes from `offset` on have been written and are these. -/
def holds (a : Arena) (offset : Nat) (bytes : List UInt8) : Bool :=
  a.spans offset bytes.length && slice a.chunks offset bytes.length == bytes

end Arena

/-- The `width` low bytes of a number, the least significant first. -/
def littleEndian : (width : Nat) → (n : Nat) → List UInt8
  | 0, _ => []
  | width + 1, n => UInt8.ofNat n :: littleEndian width (n / 256)

theorem length_littleEndian (width n : Nat) : (littleEndian width n).length = width := by
  induction width generalizing n with
  | zero => rfl
  | succ width ih => rw [littleEndian, List.length_cons, ih]

/-- Reading a number undoes writing it, as far as its bytes go. -/
theorem Arena.ofLittleEndian_littleEndian (width n : Nat) :
    Arena.ofLittleEndian (littleEndian width n) = n % Nat.pow 256 width := by
  induction width generalizing n with
  | zero => exact (Nat.mod_one n).symm
  | succ width ih =>
    have hpow : Nat.pow 256 (width + 1) = 256 * Nat.pow 256 width := Nat.mul_comm _ _
    rw [littleEndian, Arena.ofLittleEndian, ih, UInt8.toNat_ofNat', hpow, Nat.mod_mul]

end QuadBase.Dictionary
