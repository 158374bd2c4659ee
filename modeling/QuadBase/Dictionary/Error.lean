import QuadBase.Code.Basic
import QuadBase.Rdf.Quad

/-!
# What can go wrong in a dictionary

Each failure is a cause with what is needed to act on it; `DictionaryError.message` is the wording.
A failure is *fatal* if it tells that there was no room for a new term.
-/

namespace QuadBase.Dictionary

open QuadBase.Rdf

/-- The two arenas of a dictionary. -/
inductive Region where
  /-- Records. -/
  | primary
  /-- Values too long for their record. -/
  | secondary
  deriving DecidableEq

def Region.words : Region → String
  | .primary => "primary"
  | .secondary => "secondary"

/-- The three vocabularies of a dictionary. -/
inductive VocabularyName where
  | namespaces
  | languages
  | datatypes
  deriving DecidableEq

def VocabularyName.words : VocabularyName → String
  | .namespaces => "namespace"
  | .languages => "language"
  | .datatypes => "datatype"

/-- Why a dictionary refused a call. -/
inductive DictionaryError where
  /-- An arena has no room for the record or value. -/
  | exhausted (region : Region) (limit : Nat)
  /-- A vocabulary has no room for a new text. -/
  | tableFull (table : VocabularyName) (capacity : Nat)
  /-- The code stands for no term of this dictionary. -/
  | unknownCode (code : Code)
  /-- A decoded term is not allowed where it stands in a quad. -/
  | unexpectedTerm (position : Position) (expected : TermClass) (found : String)
  /-- The inner structures contradict each other. -/
  | corruption (reason : String)
  deriving DecidableEq

def DictionaryError.message : DictionaryError → String
  | exhausted region limit =>
    "The " ++ region.words ++ " arena of the term dictionary is exhausted (" ++ toString limit ++
      " bytes)"
  | tableFull table capacity =>
    "The " ++ table.words ++ " table of the term dictionary is full (" ++ toString capacity ++
      " entries)"
  | unknownCode code => "The code " ++ code.text ++ " was not issued by this dictionary"
  | unexpectedTerm position expected found =>
    "Expected " ++ expected.words ++ " as the " ++ position.words ++ " of a quad, found " ++ found
  | corruption reason => reason

/-- Whether the dictionary had no room for a new term. -/
def DictionaryError.isFatal : DictionaryError → Bool
  | exhausted _ _ => true
  | tableFull _ _ => true
  | _ => false

end QuadBase.Dictionary
