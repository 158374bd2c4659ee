/-!
# Hashes

Hash tables start their searches, and caches choose their slots, by words of 64 bits.  What is to be
hashed is handed to a *hasher* in parts.  Nothing that a caller can see depends on the hasher: equal
parts have equal hashes, and that is all that is used.  So whatever hashes takes the hasher as an
instance, and every law holds for any hasher, however many hashes collide.

Tables of texts keep the hash in each slot, and only the lower half of it.

The words for codes are visible, since they decide which decodings share a cache slot.  They come
from `spread`, which is fixed.
-/

namespace QuadBase.Text

/-- What is handed to a hasher. -/
inductive Part where
  | word (word : UInt32)
  | text (text : String)

/-- A way to hash a row of parts. -/
class Hasher where
  hash : List Part → UInt64

/-- Spreads the bits of a word, so that neighbouring words get distant hashes. -/
def spread (word : UInt32) : UInt32 :=
  let x := ((word >>> 16) ^^^ word) * 0x045d9f3b
  let x := ((x >>> 16) ^^^ x) * 0x045d9f3b
  (x >>> 16) ^^^ x

/-- Takes one more word into a hash. -/
def mixWord (hash : UInt64) (word : UInt32) : UInt64 :=
  (hash ^^^ word.toUInt64) * 1099511628211

/-- The hash of nothing at all. -/
def emptyHash : UInt64 := 14695981039346656037

/-- Takes a part into a hash, a text character by character. -/
def mixPart (hash : UInt64) : Part → UInt64
  | .word word => mixWord hash (spread word)
  | .text text => text.toList.foldl (fun h c => mixWord h c.val) hash

/-- The hasher that is used where no other one is given: it mixes the parts one after the other. -/
instance mixing : Hasher := ⟨fun parts => parts.foldl mixPart emptyHash⟩

/-- The hash of a text, of which a table keeps the lower half. -/
def hashText [Hasher] (text : String) : UInt32 :=
  (Hasher.hash [.text text]).toUInt32

end QuadBase.Text
