import QuadBase.Dictionary.Record
import QuadBase.Index.Probing

/-!
# The record table

The records of a dictionary lie one after the other in the primary arena, each at a multiple of four
bytes, and long values in the secondary arena.  The code of a record is a quarter of its offset.  An
open-addressed table finds the record of a key; records are never removed, so codes stay.

A code may come from anywhere, so reading trusts nothing: it reads what lies at the offset, and then
looks the result up as if it were to be encoded.  Only if that leads back to the same code has the
code been issued.

* `Records.find?` — the code of a key.
* `Records.insert` — the code of a key, which gets a record if it has none.
* `Records.read` — the key of a code.
-/

namespace QuadBase.Dictionary

open QuadBase.Index

/-- A slot entry of the record table. -/
structure RecordMark where
  code : Code
  hash : UInt32

/-- Records with the table that finds them. -/
structure Records where
  slots : Array (Slot RecordMark)
  count : Nat
  primary : Arena
  secondary : Arena
  primaryLimit : Nat

/-- Where a record keeps its parts. -/
structure Location where
  kind : RecordKind
  index : UInt16
  inline : Bool
  valueOffset : Nat
  valueLength : Nat

namespace Records

def leastSlots : Nat := 16

def slotBytes : Nat := 8

/-- A table without records.  The first byte of the primary arena is taken, as offset zero has no
code. -/
def create (capacity primaryLimit : Nat) : Records :=
  { slots := emptySlots (powerOfTwoFrom (max capacity leastSlots))
    count := 0
    primary := ({} : Arena).append [0]
    secondary := {}
    primaryLimit := min primaryLimit Code.maxOffset }

/-- The memory taken by the slots, in bytes. -/
def tableBytes (r : Records) : Nat :=
  r.slots.size * slotBytes

/-- The parts of what lies at the offset of a code, if that looks like a record. -/
def locate? (r : Records) (code : Code) : Option Location := do
  if !code.isIndexed then none
  else
    let offset := code.offset
    let (kind, inline) ← RecordKind.ofHeader? (← r.primary.readByte? offset)
    let (valueOffset, valueLength, indexOffset) ←
      if inline then do
        let length := (← r.primary.readByte? (offset + 1)).toNat
        some (offset + 2, length, offset + 2 + length)
      else do
        let secondaryOffset ← r.primary.readNat? (offset + 1) offsetWidth
        let length ← r.secondary.readNat? secondaryOffset lengthWidth
        some (secondaryOffset + lengthWidth, length, offset + 1 + offsetWidth)
    let index ←
      if kind.hasIndex then r.primary.readNat? indexOffset indexWidth else some 0
    some ⟨kind, UInt16.ofNat index, inline, valueOffset, valueLength⟩

/-- The arena in which a value lies. -/
def arenaOf (r : Records) (location : Location) : Arena :=
  if location.inline then r.primary else r.secondary

/-- Whether the record of a code is the record of a key. -/
def holds (r : Records) (code : Code) (key : Key) : Bool :=
  match r.locate? code with
  | none => false
  | some location =>
    location.kind == key.kind && location.index == key.index &&
      location.valueLength == key.value.utf8ByteSize &&
      (r.arenaOf location).holds location.valueOffset (utf8 key.value)

def search (r : Records) (hash : UInt32) (key : Key) : Probe RecordMark :=
  probe r.slots hash.toNat fun mark => mark.hash == hash && r.holds mark.code key

def find? [Text.Hasher] (r : Records) (key : Key) : Option Code :=
  match r.search key.hash key with
  | .found _ mark => some mark.code
  | _ => none

def nextOffset (r : Records) : Nat :=
  (r.primary.size + (Code.alignment - 1)) / Code.alignment * Code.alignment

/-- The code of the next record, if both arenas have room for it. -/
def nextCode (r : Records) (draft : Draft) : Except DictionaryError Code :=
  let offset := r.nextOffset
  match (Code.ofOffset? offset).filter fun _ => offset + draft.primary.length ≤ r.primaryLimit with
  | none => .error (.exhausted .primary r.primaryLimit)
  | some code =>
    let spilled := (draft.secondary.map List.length).getD 0
    if draft.secondary.isSome && secondaryLimit < r.secondary.size + spilled then
      .error (.exhausted .secondary secondaryLimit)
    else .ok code

/-- Enters all entries into twice as many slots. -/
def regrow (slots : Array (Slot RecordMark)) : Array (Slot RecordMark) :=
  slots.foldl (fun grown slot =>
    match slot with
    | .entry mark => place grown mark.hash.toNat mark
    | _ => grown) (emptySlots (2 * slots.size))

/-- Writes a record and enters it into the table.  Its search ended at `position`. -/
def write (r : Records) (draft : Draft) (mark : RecordMark) (position : Nat) : Records :=
  let offset := r.nextOffset
  let ⟨slots, count, primary, secondary, primaryLimit⟩ := r
  let slots :=
    if isCrowded (count + 1) slots.size then place (regrow slots) mark.hash.toNat mark
    else slots.setIfInBounds position (.entry mark)
  let primary := primary.write offset draft.primary
  match draft.secondary with
  | none => ⟨slots, count + 1, primary, secondary, primaryLimit⟩
  | some spilled =>
    let primary := primary.write (offset + 1) (littleEndian offsetWidth secondary.size)
    ⟨slots, count + 1, primary, secondary.append spilled, primaryLimit⟩

/-- The code of a key, which gets a record if it has none and there is room.  The case of a search
without an end is never met (`Records.Sound.search_ne_exhausted`). -/
def insert [Text.Hasher] (r : Records) (key : Key) (inlineLimit : Nat) :
    Except DictionaryError Code × Records :=
  let hash := key.hash
  match r.search hash key with
  | .found _ mark => (.ok mark.code, r)
  | .exhausted => (.error (.exhausted .primary r.primaryLimit), r)
  | .vacant position =>
    match (key.draft inlineLimit).bind fun draft => (r.nextCode draft).map (draft, ·) with
    | .error e => (.error e, r)
    | .ok (draft, code) => (.ok code, r.write draft ⟨code, hash⟩ position)

/-- The key of a code, if the code has been issued. -/
def read [Text.Hasher] (r : Records) (code : Code) : Except DictionaryError Key :=
  let key? := do
    let location ← r.locate? code
    let bytes ← (r.arenaOf location).read? location.valueOffset location.valueLength
    let value ← ofUtf8? bytes
    some (⟨location.kind, location.index, value⟩ : Key)
  match key? with
  | none => .error (.unknownCode code)
  | some key => if r.find? key = some code then .ok key else .error (.unknownCode code)

end Records

end QuadBase.Dictionary
