import QuadBase.Text.Hex

/-!
# Codes

A code is a 32-bit word that stands for a term.  The words fall into regions.

* *Embedded* codes have their three upper bits set and a nonzero datatype number in the next five;
  the other 24 bits are the packed value.
* *Indexed* codes are the nonzero words below the embedded region.  The code is a quarter of the
  offset at which the record of the term lies.
* The *null* code stands for the default graph.

Zero and the other words with datatype number zero stand for nothing.

* `Code.payload_embedded`, `Code.datatypeNumber_embedded` — an embedded code gives back its parts.
* `Code.offset_of_ofOffset?` — an indexed code gives back its offset.
-/

namespace QuadBase

/-- A word that stands for a term. -/
structure Code where
  word : UInt32
  deriving DecidableEq, Inhabited

namespace Code

/-- The first word with its three upper bits set. -/
def embeddedStart : Nat := 0xE0000000

/-- Payloads of embedded codes are below this bound. -/
def payloadSpace : Nat := Nat.pow 2 24

/-- Datatype numbers of embedded codes are below this bound. -/
def numberSpace : Nat := Nat.pow 2 5

/-- The code of the default graph. -/
def null : Code := ⟨0xE0000000⟩

/-- The datatype number of an embedded code. -/
def datatypeNumber (c : Code) : Nat :=
  c.word.toNat / payloadSpace % numberSpace

/-- The packed value of an embedded code. -/
def payload (c : Code) : Nat :=
  c.word.toNat % payloadSpace

/-- Whether the code stands for the default graph. -/
def isNull (c : Code) : Bool :=
  c == null

/-- Whether the value of the term is packed into the code. -/
def isEmbedded (c : Code) : Bool :=
  embeddedStart ≤ c.word.toNat && c.datatypeNumber ≠ 0

/-- Whether the term is kept in a record. -/
def isIndexed (c : Code) : Bool :=
  0 < c.word.toNat && c.word.toNat < embeddedStart

/-- The code of a packed value. -/
def embedded (number payload : Nat) : Code :=
  ⟨UInt32.ofNat (embeddedStart + number % numberSpace * payloadSpace + payload % payloadSpace)⟩

/-- The distance between two offsets that have a code. -/
def alignment : Nat := 4

/-- The greatest offset that has a code. -/
def maxOffset : Nat := (embeddedStart - 1) * alignment

/-- The offset of the record behind an indexed code. -/
def offset (c : Code) : Nat :=
  c.word.toNat * alignment

/-- The indexed code of the record at an aligned offset. -/
def ofOffset? (offset : Nat) : Option Code :=
  let quarter := offset / alignment
  if 0 < quarter ∧ quarter < embeddedStart then some ⟨UInt32.ofNat quarter⟩ else none

def text (c : Code) : String :=
  "0x" ++ Text.hexWord 8 c.word.toNat

/-- The code as text for people who read dumps. -/
def debugText (c : Code) : String :=
  "Code(" ++ c.text ++ ")"

theorem toNat_embedded (number payload : Nat) :
    (embedded number payload).word.toNat =
      embeddedStart + number % numberSpace * payloadSpace + payload % payloadSpace := by
  simp only [embedded, embeddedStart, numberSpace, payloadSpace, Nat.pow_eq, UInt32.toNat_ofNat']
  omega

theorem datatypeNumber_embedded {number : Nat} (h : number < numberSpace) (payload : Nat) :
    (embedded number payload).datatypeNumber = number := by
  rw [datatypeNumber, toNat_embedded]
  simp only [embeddedStart, numberSpace, payloadSpace, Nat.pow_eq] at h ⊢
  omega

theorem payload_embedded (number : Nat) {payload : Nat} (h : payload < payloadSpace) :
    (embedded number payload).payload = payload := by
  rw [Code.payload, toNat_embedded]
  simp only [embeddedStart, numberSpace, payloadSpace, Nat.pow_eq] at h ⊢
  omega

/-- An indexed code gives back the aligned offset it was made from. -/
theorem offset_of_ofOffset? {offset : Nat} {c : Code} (h : ofOffset? offset = some c)
    (aligned : offset % alignment = 0) : c.offset = offset := by
  simp only [ofOffset?] at h
  split at h
  next hrange =>
    obtain rfl := Option.some.inj h
    simp only [Code.offset, alignment, embeddedStart, UInt32.toNat_ofNat'] at *
    omega
  next => cases h

end Code

/-- A quad of codes.  The graph of a quad in the default graph is the null code. -/
structure CodedQuad where
  subject : Code
  predicate : Code
  object : Code
  graph : Code
  deriving DecidableEq

end QuadBase
