import QuadBase.Dictionary.Error
import QuadBase.Store.Basic
import QuadBase.Stream.Handler

/-!
# Loading a store

A loader is the end of a stream of quads: it puts every quad into a store and counts the new ones.
Behind a decoding handler it loads coded quads, so that both a dictionary and a store can be the
reason of a refusal.

* `Loader.handler` — the handler.
* `TransferError` — a failure of either side.
-/

namespace QuadBase.Stream

open QuadBase.Dictionary QuadBase.Rdf QuadBase.Store

/-- A failure on the way between a dictionary and a store. -/
inductive TransferError where
  /-- The dictionary refused a term or a code. -/
  | dictionary (error : DictionaryError)
  /-- The store refused a quad. -/
  | store (error : StoreError)
  deriving DecidableEq

/-- The text of a failure. -/
def TransferError.message : TransferError → String
  | dictionary error => error.message
  | store error => error.message

/-- Whether the refusing side has no room for anything new. -/
def TransferError.isFatal : TransferError → Bool
  | dictionary error => error.isFatal
  | store error => error.isFatal

/-- A store with the number of quads that were new to it. -/
structure Loader where
  store : QuadStore
  loaded : Nat

namespace Loader

variable [Text.Hasher]

/-- A loader that has not loaded anything. -/
def create (store : QuadStore) : Loader :=
  ⟨store, 0⟩

/-- Puts a quad into the store. -/
def load (q : Quad) (l : Loader) : Except TransferError Unit × Loader :=
  let ⟨store, loaded⟩ := l
  match store.insert q with
  | (.error e, store) => (.error (.store e), ⟨store, loaded⟩)
  | (.ok added, store) => (.ok (), ⟨store, if added then loaded + 1 else loaded⟩)

/-- The handler that loads quads. -/
def handler : Handler Loader TransferError Quad where
  handle := load

end Loader

end QuadBase.Stream
