import QuadBase.Code.Basic

/-!
# Tuning a dictionary

Sizes that a dictionary is created with.  The inline limit and the primary limit decide which
records are written and whether there is room; the others only trade memory for speed.

Sizes are natural numbers without a bound.  What a machine can provide ends far below its greatest
word, and a program that asks for more stops while it creates the dictionary, before it has answered
anything.
-/

namespace QuadBase.Dictionary

/-- The sizes that a dictionary is created with. -/
structure Config where
  /-- The wished number of slots of the record table, rounded up to a power of two. -/
  tableCapacity : Nat := 512
  /-- The number of slots of the encode cache. -/
  encodeCacheCapacity : Nat := 1023
  /-- The number of slots of the decode cache. -/
  decodeCacheCapacity : Nat := 1023
  /-- The wished number of shards of each cache. -/
  cacheShards : Nat := 63
  /-- Values of more bytes than this are kept outside their record. -/
  inlineLimit : Nat := 127
  /-- The greatest size of the primary arena. -/
  primaryLimit : Nat := Code.maxOffset
  deriving DecidableEq

namespace Config

/-- The length of an inline value is kept in one byte. -/
def maxInlineLimit : Nat := 255

/-- Sets the inline limit, as far as a length byte allows. -/
def withInlineLimit (c : Config) (limit : Nat) : Config :=
  { c with inlineLimit := min limit maxInlineLimit }

end Config

instance : Inhabited Config := ⟨{}⟩

end QuadBase.Dictionary
