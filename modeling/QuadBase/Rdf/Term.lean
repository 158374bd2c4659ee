import QuadBase.Rdf.Iri
import QuadBase.Text.Escape
import QuadBase.Text.Hash

/-!
# RDF terms

A term is a *resource* (an IRI or a blank node) or a literal.  A literal has a label and is simple,
or carries a language tag, or a datatype.  Simple literals are the ones of datatype `xsd:string`, so
that datatype is excluded from typed literals and two literals are equal exactly when they are the
same term.

* `Literal.ofDatatype` — the literal with a given label and datatype.
* `Term.text` — a term as it is written in N-Quads.
* `Literal.ofDatatype_datatype` — the datatype asked for is the datatype obtained.
-/

namespace QuadBase.Rdf

/-- The namespace of the datatypes of XML Schema. -/
def xsdNamespace : String := "http://www.w3.org/2001/XMLSchema#"

/-- The datatype of XML Schema with the given local name. -/
def xsd (name : String) : Iri := ⟨xsdNamespace ++ name⟩

/-- The datatype of simple literals. -/
def xsdString : Iri := xsd "string"

/-- The datatype of literals with a language tag. -/
def rdfLangString : Iri := ⟨"http://www.w3.org/1999/02/22-rdf-syntax-ns#langString"⟩

/-- An IRI or a blank node.  These are the terms that statements can be about. -/
inductive Resource where
  | iri (iri : Iri)
  | blank (id : String)
  deriving DecidableEq, Hashable, Inhabited

/-- The datatype of a typed literal. -/
structure Datatype where
  iri : Iri
  /-- Literals of this datatype are the simple ones. -/
  ne_string : iri ≠ xsdString
  deriving DecidableEq, Hashable

/-- A label with what is known about it. -/
inductive Literal where
  | simple (label : String)
  | tagged (label language : String)
  /-- The lexical form of a value of a datatype. -/
  | typed (label : String) (datatype : Datatype)
  deriving DecidableEq, Hashable

inductive Term where
  | resource (resource : Resource)
  | literal (literal : Literal)
  deriving DecidableEq, Hashable

inductive GraphName where
  /-- The graph without a name. -/
  | defaultGraph
  | named (resource : Resource)
  deriving DecidableEq, Hashable, Inhabited

namespace Literal

def ofDatatype (label : String) (datatype : Iri) : Literal :=
  if h : datatype = xsdString then .simple label else .typed label ⟨datatype, h⟩

def label : Literal → String
  | simple label => label
  | tagged label _ => label
  | typed label _ => label

def datatype : Literal → Iri
  | simple _ => xsdString
  | tagged _ _ => rdfLangString
  | typed _ datatype => datatype.iri

def language? : Literal → Option String
  | tagged _ language => some language
  | _ => none

theorem ofDatatype_datatype (label : String) (datatype : Iri) :
    (ofDatatype label datatype).datatype = datatype := by
  unfold ofDatatype
  split
  next h => exact h.symm
  next => rfl

theorem ofDatatype_label (label : String) (datatype : Iri) :
    (ofDatatype label datatype).label = label := by
  unfold ofDatatype
  split <;> rfl

def text : Literal → String
  | simple label => "\"" ++ Text.escape label ++ "\""
  | tagged label language => "\"" ++ Text.escape label ++ "\"@" ++ language
  | typed label datatype => "\"" ++ Text.escape label ++ "\"^^<" ++ datatype.iri.text ++ ">"

end Literal

def Resource.text : Resource → String
  | .iri i => "<" ++ i.text ++ ">"
  | .blank id => "_:" ++ id

namespace Term

abbrev iri (i : Iri) : Term := .resource (.iri i)

abbrev blank (id : String) : Term := .resource (.blank id)

/-- A term as it is written in N-Quads. -/
def text : Term → String
  | resource r => r.text
  | literal l => l.text

/-- The string inside a term: the IRI, the identifier of the blank node or the label. -/
def content : Term → String
  | resource (.iri i) => i.text
  | resource (.blank id) => id
  | literal l => l.label

/-- The hash by which tables and caches find a term. -/
def hash [Text.Hasher] : Term → UInt64
  | resource (.iri i) => Text.Hasher.hash [.word 1, .text i.text]
  | resource (.blank id) => Text.Hasher.hash [.word 2, .text id]
  | literal (.simple label) => Text.Hasher.hash [.word 3, .text label]
  | literal (.tagged label language) => Text.Hasher.hash [.word 4, .text language, .text label]
  | literal (.typed label datatype) =>
    Text.Hasher.hash [.word 5, .text datatype.iri.text, .text label]

end Term

instance : Inhabited Term := ⟨.resource default⟩

def GraphName.text : GraphName → String
  | .defaultGraph => "DEFAULT"
  | .named r => r.text

/-- The kinds of term that a place may call for. -/
inductive TermClass where
  | iri
  | resource
  | literal
  deriving DecidableEq

def TermClass.words : TermClass → String
  | .iri => "an IRI"
  | .resource => "an IRI or a blank node"
  | .literal => "a literal"

end QuadBase.Rdf
