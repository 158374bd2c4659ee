import QuadBase.Store.Query
import QuadBase.Text.Quoted

/-!
# A store as text

The quads of a store as N-Quads lines, and a dump for debugging.  The lines are sorted, so that the
text depends on the set of quads alone.
-/

namespace QuadBase.Store

open QuadBase.Rdf

/-- Texts in the order of their characters. -/
def sortTexts (texts : List String) : List String :=
  texts.mergeSort fun a b => decide (a ≤ b)

/-- The sorting keeps the texts. -/
theorem sortTexts_perm (texts : List String) : (sortTexts texts).Perm texts :=
  List.mergeSort_perm texts _

namespace QuadStore

variable [Text.Hasher]

/-- The quads of the store, one N-Quads line each, sorted. -/
def text (s : QuadStore) : String :=
  let lines := sortTexts ((s.quads {}).map Quad.text)
  String.join (lines.map (· ++ " .\n"))

/-- The number of terms that have a handle. -/
def termCount (s : QuadStore) : Nat :=
  s.terms.size - 1

/-- The abbreviations in a dump. -/
def namespacesDump (s : QuadStore) : String :=
  let entries := s.namespaces.toList.map fun (abbreviation, space) =>
    Text.quoted abbreviation ++ ": " ++ Text.quoted space
  "\x7b" ++ String.intercalate ", " entries ++ "\x7d"

/-- The store in a dump, without its quads. -/
def dumpText (s : QuadStore) : String :=
  "QuadStore \x7b config: QuadStoreConfig \x7b initial_term_capacity: " ++
    toString s.config.terms ++ ", initial_statement_capacity: " ++ toString s.config.statements ++
    " \x7d, len: " ++ toString s.size ++ ", terms: " ++ toString s.termCount ++
    ", namespaces: " ++ s.namespacesDump ++ ", .. \x7d"

end QuadStore

end QuadBase.Store
