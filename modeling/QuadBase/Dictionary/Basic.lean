import QuadBase.Code.Packing
import QuadBase.Dictionary.Cache
import QuadBase.Dictionary.Calls
import QuadBase.Dictionary.Config
import QuadBase.Dictionary.Records
import QuadBase.Dictionary.Vocabulary

/-!
# The term dictionary

A dictionary gives every term a code and every code of its own the term back.  A literal whose value
fits is packed into the code.  Any other term is taken apart into a key (an IRI into a numbered
namespace and a local name, a literal into a label and a numbered language or datatype), and the key
gets a record.  Two caches shorten the way for what was asked for lately.

An operation answers with an `Outcome`: the result proper, the calls to be counted, and the
dictionary afterwards.

* `TermDictionary.encode` — the code of a term, issued if need be.
* `TermDictionary.tryEncode` — the code of a term that has one.
* `TermDictionary.decode` — the term of a code.
* `TermDictionary.kindOf` — what a code stands for.
* `TermDictionary.fork` — a dictionary that goes its own way from here.
-/

namespace QuadBase.Dictionary

open QuadBase.Rdf

/-- A bidirectional mapping between terms and codes. -/
structure TermDictionary where
  config : Config
  namespaces : Vocabulary
  languages : Vocabulary
  datatypes : Vocabulary
  records : Records
  encodeCache : Cache Term Code
  decodeCache : Cache Code Term

/-- The answer of an operation, what it counted, and the dictionary it left. -/
structure Outcome (ρ : Type) where
  answer : ρ
  calls : Calls
  dictionary : TermDictionary

/-- Goes on with the value of a successful answer in the dictionary left so far. -/
@[inline] def Outcome.andThen {α β : Type} (o : Outcome (Except DictionaryError α))
    (next : α → TermDictionary → Outcome (Except DictionaryError β)) :
    Outcome (Except DictionaryError β) :=
  let ⟨answer, calls, d⟩ := o
  match answer with
  | .error e => ⟨.error e, calls, d⟩
  | .ok a =>
    let ⟨answer, more, d⟩ := next a d
    ⟨answer, calls + more, d⟩

/-- The code of a literal whose value fits into it. -/
def embed? : Term → Option Code
  | .resource _ => none
  | .literal l =>
    if l.language?.isSome then none
    else
      (Code.packedNumber? l.datatype).bind fun (number, family) =>
        (family.pack? l.label).map (Code.embedded number)

/-- The literal in an embedded code. -/
def unembed? (code : Code) : Option Term :=
  (Code.packedDatatype? code.datatypeNumber).bind fun datatype =>
    (datatype.family.unpack? code.payload).map fun label =>
      .literal (.ofDatatype (String.ofList label) datatype.iri)

/-- The datatypes that every dictionary numbers from the start: the packed ones, so that their
numbers are the same in codes and records, and the one of simple literals. -/
def initialDatatypes : List String :=
  Code.packedDatatypes.map (·.iri.text) ++ [xsdString.text]

def initialDatatypeVocabulary [Text.Hasher] : Vocabulary :=
  Vocabulary.ofList initialDatatypes

namespace TermDictionary

variable [Text.Hasher]

def create (config : Config) : TermDictionary :=
  { config
    namespaces := Vocabulary.empty
    languages := Vocabulary.empty
    datatypes := initialDatatypeVocabulary
    records := Records.create config.tableCapacity config.primaryLimit
    encodeCache := Cache.create config.encodeCacheCapacity config.cacheShards
    decodeCache := Cache.create config.decodeCacheCapacity config.cacheShards }

instance : Inhabited TermDictionary := ⟨create default⟩

/-! ## Keys -/

/-- Numbers a text, or tells that the vocabulary is full. -/
def numbered (name : VocabularyName) (number : Option UInt16) : Except DictionaryError UInt16 :=
  match number with
  | some number => .ok number
  | none => .error (.tableFull name Vocabulary.capacity)

/-- Takes a term apart, numbering its namespace, language or datatype.  An IRI whose namespace finds
no room is kept whole. -/
def internKey (d : TermDictionary) (t : Term) : Except DictionaryError Key × TermDictionary :=
  match t with
  | .resource (.iri iri) =>
    match iri.split? with
    | none => (.ok ⟨.iri, 0, iri.text⟩, d)
    | some (space, name) =>
      let ⟨config, namespaces, languages, datatypes, records, encodeCache, decodeCache⟩ := d
      let (number?, namespaces) := namespaces.intern space
      let key : Key := match number? with
        | some number => ⟨.namespacedIri, number, name⟩
        | none => ⟨.iri, 0, iri.text⟩
      (.ok key, ⟨config, namespaces, languages, datatypes, records, encodeCache, decodeCache⟩)
  | .resource (.blank id) => (.ok ⟨.blankNode, 0, id⟩, d)
  | .literal (.simple label) => (.ok ⟨.simpleLiteral, 0, label⟩, d)
  | .literal (.tagged label language) =>
    let ⟨config, namespaces, languages, datatypes, records, encodeCache, decodeCache⟩ := d
    let (number?, languages) := languages.intern language
    ((numbered .languages number?).map (⟨.languageLiteral, ·, label⟩),
      ⟨config, namespaces, languages, datatypes, records, encodeCache, decodeCache⟩)
  | .literal (.typed label datatype) =>
    let ⟨config, namespaces, languages, datatypes, records, encodeCache, decodeCache⟩ := d
    let (number?, datatypes) := datatypes.intern datatype.iri.text
    ((numbered .datatypes number?).map (⟨.typedLiteral, ·, label⟩),
      ⟨config, namespaces, languages, datatypes, records, encodeCache, decodeCache⟩)

/-- The key that a term has if it has been encoded: no vocabulary is touched.  An IRI whose
namespace is not known has been kept whole, if at all. -/
def existingKey? (d : TermDictionary) (t : Term) : Option Key :=
  match t with
  | .resource (.iri iri) =>
    let namespaced := iri.split?.bind fun (space, name) =>
      (d.namespaces.number? space).map fun number => (⟨.namespacedIri, number, name⟩ : Key)
    some (namespaced.getD ⟨.iri, 0, iri.text⟩)
  | .resource (.blank id) => some ⟨.blankNode, 0, id⟩
  | .literal (.simple label) => some ⟨.simpleLiteral, 0, label⟩
  | .literal (.tagged label language) =>
    (d.languages.number? language).map (⟨.languageLiteral, ·, label⟩)
  | .literal (.typed label datatype) =>
    (d.datatypes.number? datatype.iri.text).map (⟨.typedLiteral, ·, label⟩)

/-- The text with a number that stands in a record. -/
def resolve (v : Vocabulary) (number : UInt16) : Except DictionaryError String :=
  match v.text? number with
  | some text => .ok text
  | none =>
    .error (.corruption
      ("A record refers to the unknown table index " ++ toString number.toNat))

/-- Puts the term of a key together. -/
def termOf (d : TermDictionary) (key : Key) : Except DictionaryError Term :=
  match key.kind with
  | .iri => .ok (.iri ⟨key.value⟩)
  | .namespacedIri => (resolve d.namespaces key.index).map fun space => .iri ⟨space ++ key.value⟩
  | .blankNode => .ok (.blank key.value)
  | .simpleLiteral => .ok (.literal (.simple key.value))
  | .languageLiteral =>
    (resolve d.languages key.index).map fun language => .literal (.tagged key.value language)
  | .typedLiteral =>
    (resolve d.datatypes key.index).map fun datatype =>
      .literal (.ofDatatype key.value ⟨datatype⟩)

/-! ## Encoding -/

/-- Gives a key its record. -/
def insertKey (d : TermDictionary) (key : Key) : Except DictionaryError Code × TermDictionary :=
  let ⟨config, namespaces, languages, datatypes, records, encodeCache, decodeCache⟩ := d
  let (code, records) := records.insert key config.inlineLimit
  (code, ⟨config, namespaces, languages, datatypes, records, encodeCache, decodeCache⟩)

/-- Keeps the code of a term in the encode cache. -/
def rememberCode (d : TermDictionary) (t : Term) (code : Code) : TermDictionary :=
  let ⟨config, namespaces, languages, datatypes, records, encodeCache, decodeCache⟩ := d
  ⟨config, namespaces, languages, datatypes, records,
    encodeCache.insert t.hash.toNat t code, decodeCache⟩

/-- The code that the encode cache keeps for a term. -/
def cachedCode? (d : TermDictionary) (t : Term) : Option Code :=
  d.encodeCache.find? t.hash.toNat (· == t)

/-- The code of a term, which is issued if the term has none.  Fails only if there is no room for
the term. -/
def encode (d : TermDictionary) (t : Term) : Outcome (Except DictionaryError Code) :=
  match embed? t with
  | some code => ⟨.ok code, .encoding .embedded, d⟩
  | none =>
    match d.cachedCode? t with
    | some code => ⟨.ok code, .encoding .cached, d⟩
    | none =>
      match d.internKey t with
      | (.error e, d) => ⟨.error e, .none, d⟩
      | (.ok key, d) =>
        match d.insertKey key with
        | (.error e, d) => ⟨.error e, .none, d⟩
        | (.ok code, d) => ⟨.ok code, .encoding .indexed, d.rememberCode t code⟩

/-- The code of a term that has one.  None is issued. -/
def tryEncode (d : TermDictionary) (t : Term) : Outcome (Option Code) :=
  match embed? t with
  | some code => ⟨some code, .encoding .embedded, d⟩
  | none =>
    match d.cachedCode? t with
    | some code => ⟨some code, .encoding .cached, d⟩
    | none =>
      match (d.existingKey? t).bind d.records.find? with
      | none => ⟨none, .none, d⟩
      | some code => ⟨some code, .encoding .indexed, d.rememberCode t code⟩

/-! ## Decoding -/

/-- The place of a code in the decode cache. -/
def decodeHash (code : Code) : Nat :=
  (Text.spread code.word).toNat

/-- Keeps the term of a code in the decode cache. -/
def rememberTerm (d : TermDictionary) (code : Code) (t : Term) : TermDictionary :=
  let ⟨config, namespaces, languages, datatypes, records, encodeCache, decodeCache⟩ := d
  ⟨config, namespaces, languages, datatypes, records, encodeCache,
    decodeCache.insert (decodeHash code) code t⟩

/-- The term that the decode cache keeps for a code. -/
def cachedTerm? (d : TermDictionary) (code : Code) : Option Term :=
  d.decodeCache.find? (decodeHash code) (· == code)

/-- The term of a code.  Codes that stand for nothing here are refused. -/
def decode (d : TermDictionary) (code : Code) : Outcome (Except DictionaryError Term) :=
  if code.isEmbedded then
    match unembed? code with
    | some t => ⟨.ok t, .decoding .embedded, d⟩
    | none => ⟨.error (.unknownCode code), .decoding .embedded, d⟩
  else if !code.isIndexed then ⟨.error (.unknownCode code), .none, d⟩
  else
    match d.cachedTerm? code with
    | some t => ⟨.ok t, .decoding .cached, d⟩
    | none =>
      match (d.records.read code).bind d.termOf with
      | .error e => ⟨.error e, .none, d⟩
      | .ok t => ⟨.ok t, .decoding .indexed, d.rememberTerm code t⟩

/-! ## Classification -/

/-- The kind of term behind a code, none for the null code.  Of an embedded code only the datatype
number is looked at. -/
def kindOf (d : TermDictionary) (code : Code) : Except DictionaryError (Option RecordKind) :=
  if code.isNull then .ok none
  else if code.isEmbedded then
    if (Code.packedDatatype? code.datatypeNumber).isSome then .ok (some .typedLiteral)
    else .error (.unknownCode code)
  else (d.records.read code).map fun key => some key.kind

def isLiteral (d : TermDictionary) (code : Code) : Except DictionaryError Bool :=
  (d.kindOf code).map fun kind => kind.any RecordKind.isLiteral

def isIri (d : TermDictionary) (code : Code) : Except DictionaryError Bool :=
  (d.kindOf code).map fun kind => kind.any RecordKind.isIri

def isBlankNode (d : TermDictionary) (code : Code) : Except DictionaryError Bool :=
  (d.kindOf code).map fun kind => kind == some .blankNode

/-- Whether a code stands for an IRI or a blank node. -/
def isResource (d : TermDictionary) (code : Code) : Except DictionaryError Bool :=
  (d.kindOf code).map fun kind => kind.any fun kind => !kind.isLiteral

/-! ## Forking -/

/-- An independent copy: codes issued so far mean the same in both, later ones need not.  The caches
of the copy are empty. -/
def fork (d : TermDictionary) : TermDictionary :=
  { d with
    encodeCache := Cache.create d.config.encodeCacheCapacity d.config.cacheShards
    decodeCache := Cache.create d.config.decodeCacheCapacity d.config.cacheShards }

end TermDictionary

end QuadBase.Dictionary
