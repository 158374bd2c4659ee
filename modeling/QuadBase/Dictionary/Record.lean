import QuadBase.Dictionary.Arena
import QuadBase.Dictionary.Error
import QuadBase.Text.Hash

/-!
# Records

The dictionary keeps a term as a *key*: a kind, a vocabulary number where the kind has one, and a
text.  The record of a key starts with a header byte that tells the kind and whether the value
stands in the record itself.  An inline record goes on with the length of the value in one byte and
the value; any other record goes on with the offset of the value in the secondary arena, in five
bytes.  The vocabulary number ends the record, in two bytes.  In the secondary arena a value follows
its length in four bytes.  All numbers are little-endian.

* `Key.draft` — the bytes of a key's record.
* `RecordKind.ofHeader?_header` — a header gives back kind and flag.
-/

namespace QuadBase.Dictionary

/-- What a record keeps. -/
inductive RecordKind where
  /-- An IRI as a whole. -/
  | iri
  /-- The local name of an IRI in a namespace of the vocabulary. -/
  | namespacedIri
  | blankNode
  | simpleLiteral
  /-- The label of a literal in a language of the vocabulary. -/
  | languageLiteral
  /-- The label of a literal of a datatype of the vocabulary. -/
  | typedLiteral
  deriving DecidableEq

namespace RecordKind

/-- The number of a kind, which fits into three bits. -/
def number : RecordKind → Nat
  | iri => 0
  | namespacedIri => 1
  | blankNode => 2
  | simpleLiteral => 4
  | languageLiteral => 5
  | typedLiteral => 6

def ofNumber? : Nat → Option RecordKind
  | 0 => some iri
  | 1 => some namespacedIri
  | 2 => some blankNode
  | 4 => some simpleLiteral
  | 5 => some languageLiteral
  | 6 => some typedLiteral
  | _ => none

/-- Whether records of this kind end with a vocabulary number. -/
def hasIndex : RecordKind → Bool
  | namespacedIri | languageLiteral | typedLiteral => true
  | iri | blankNode | simpleLiteral => false

def isLiteral : RecordKind → Bool
  | simpleLiteral | languageLiteral | typedLiteral => true
  | iri | namespacedIri | blankNode => false

def isIri : RecordKind → Bool
  | iri | namespacedIri => true
  | blankNode | simpleLiteral | languageLiteral | typedLiteral => false

def header (kind : RecordKind) (inline : Bool) : UInt8 :=
  UInt8.ofNat (32 * kind.number + if inline then 16 else 0)

/-- The kind and the inline flag of a first byte.  The four low bits of a header are zero. -/
def ofHeader? (byte : UInt8) : Option (RecordKind × Bool) :=
  if byte.toNat % 16 = 0 then (ofNumber? (byte.toNat / 32)).map (·, byte.toNat / 16 % 2 == 1)
  else none

/-- A header gives back what it was made of. -/
theorem ofHeader?_header (kind : RecordKind) (inline : Bool) :
    ofHeader? (kind.header inline) = some (kind, inline) := by
  cases kind <;> cases inline <;> decide

end RecordKind

/-- The bytes of a text. -/
def utf8 (text : String) : List UInt8 :=
  text.toUTF8.data.toList

/-- The text of bytes, if they are well-formed. -/
def ofUtf8? (bytes : List UInt8) : Option String :=
  String.fromUTF8? ⟨bytes.toArray⟩

/-- A term as the dictionary keeps it. -/
structure Key where
  kind : RecordKind
  /-- The number of the namespace, language or datatype, zero for the other kinds. -/
  index : UInt16
  /-- The IRI, local name, identifier or label. -/
  value : String
  deriving DecidableEq

/-- The hash by which the record table finds a key. -/
def Key.hash [Text.Hasher] (key : Key) : UInt32 :=
  UInt32.ofNat key.kind.number * 6661 + key.index.toUInt32 * 661 + Text.hashText key.value

/-- The widths of the numbers in a record, in bytes. -/
def offsetWidth : Nat := 5
def lengthWidth : Nat := 4
def indexWidth : Nat := 2

/-- The secondary arena ends where offsets no longer fit. -/
def secondaryLimit : Nat := Nat.pow 256 offsetWidth

structure Draft where
  /-- The record.  Where the value is kept outside, the offset is still missing. -/
  primary : List UInt8
  /-- The length and the bytes of a value that is kept outside the record. -/
  secondary : Option (List UInt8)

/-- Whether a value of this many bytes is kept in its record. -/
def isInline (inlineLimit length : Nat) : Bool :=
  length < 256 && length ≤ inlineLimit

namespace Key

/-- The bytes that end the record. -/
def indexBytes (key : Key) : List UInt8 :=
  if key.kind.hasIndex then littleEndian indexWidth key.index.toNat else []

def draft (key : Key) (inlineLimit : Nat) : Except DictionaryError Draft :=
  let bytes := utf8 key.value
  if isInline inlineLimit bytes.length then
    .ok ⟨key.kind.header true :: UInt8.ofNat bytes.length :: bytes ++ key.indexBytes, none⟩
  else if bytes.length < Nat.pow 256 lengthWidth then
    .ok ⟨key.kind.header false :: littleEndian offsetWidth 0 ++ key.indexBytes,
      some (littleEndian lengthWidth bytes.length ++ bytes)⟩
  else .error (.exhausted .secondary secondaryLimit)

end Key

/-- The text of bytes gives back the bytes. -/
theorem utf8_of_ofUtf8? {bytes : List UInt8} {text : String} (h : ofUtf8? bytes = some text) :
    utf8 text = bytes := by
  simp only [ofUtf8?, String.fromUTF8?] at h
  split at h
  · obtain rfl := Option.some.inj h
    rfl
  · cases h

/-- The bytes of a text give back the text. -/
theorem ofUtf8?_utf8 (text : String) : ofUtf8? (utf8 text) = some text := by
  have hbytes : (⟨(utf8 text).toArray⟩ : ByteArray) = text.toUTF8 := rfl
  rw [ofUtf8?, hbytes]
  exact dif_pos text.isValidUTF8

end QuadBase.Dictionary
