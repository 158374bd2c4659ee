import QuadBase.Rdf.Quad

/-!
# What can go wrong in a store

Failures of a store by cause, with `StoreError.message` as the wording.  Only a full store is
fatal.
-/

namespace QuadBase.Store

open QuadBase.Rdf

/-- What a store can hold too many of. -/
inductive Stock where
  | terms
  | statements
  deriving DecidableEq

def Stock.words : Stock → String
  | .terms => "terms"
  | .statements => "statements"

/-- Why a store refused a call. -/
inductive StoreError where
  /-- There is no number left for another one. -/
  | capacityExceeded (stock : Stock) (limit : Nat)
  /-- Several objects, two of which are named, where at most one was asked for. -/
  | ambiguousObject (first second : String)
  /-- The only object is not of the kind that was asked for. -/
  | unexpectedObject (expected : TermClass) (found : String)
  /-- The inner structures contradict each other. -/
  | corruption (reason : String)
  deriving DecidableEq

def StoreError.message : StoreError → String
  | capacityExceeded stock limit =>
    "The quad store cannot hold more than " ++ toString limit ++ " " ++ stock.words
  | ambiguousObject first second =>
    "Expected at most one object, found " ++ first ++ " and " ++ second
  | unexpectedObject expected found =>
    "Expected " ++ expected.words ++ " as object, found " ++ found
  | corruption reason => reason

/-- Whether the store has no room for anything new. -/
def StoreError.isFatal : StoreError → Bool
  | capacityExceeded _ _ => true
  | _ => false

end QuadBase.Store
