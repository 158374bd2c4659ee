/-!
# IRIs and their namespaces

Many IRIs of a data set differ only in their last part.  This module splits an IRI into a namespace
and a local name: behind the last `#`, or, if there is none, behind the last `/`, or else behind the
last `:`.  An IRI one of whose parts would be empty is not split.

* `splitAfterLast_append` — the two parts concatenate to the whole.
* `Iri.split?` — the split used by the dictionary.
-/

namespace QuadBase.Rdf

/-- An IRI.  Any text is allowed: validity is the business of whoever reads the data. -/
structure Iri where
  text : String
  deriving DecidableEq, Hashable, Inhabited

/-- The part of `cs` up to and including the last `c`, and what follows it. -/
def splitAfterLast (c : Char) (cs : List Char) : Option (List Char × List Char) :=
  let space := cs.reverse.dropWhile (· ≠ c)
  if space.isEmpty then none else some (space.reverse, (cs.reverse.takeWhile (· ≠ c)).reverse)

/-- The split at the first of `seps` that occurs in `cs` at all, behind its last occurrence. -/
def splitAtSeparator (seps : List Char) (cs : List Char) : Option (List Char × List Char) :=
  seps.findSome? (splitAfterLast · cs)

/-- The separators between namespace and local name, the strongest first. -/
def separators : List Char := ['#', '/', ':']

namespace Iri

/-- The namespace and the local name of an IRI, either of which may be empty.  An IRI without any
separator is all local name. -/
def parts (iri : Iri) : List Char × List Char :=
  (splitAtSeparator separators iri.text.toList).getD ([], iri.text.toList)

/-- The byte position in the UTF-8 text at which the local name starts, zero if there is no
separator. -/
def localNameIndex (iri : Iri) : Nat :=
  (String.ofList iri.parts.1).utf8ByteSize

/-- The namespace and the local name of an IRI, if neither is empty. -/
def split? (iri : Iri) : Option (String × String) :=
  let (space, name) := iri.parts
  if space.isEmpty || name.isEmpty then none else some (String.ofList space, String.ofList name)

end Iri

/-- Splitting loses nothing. -/
theorem splitAfterLast_append {c : Char} {cs left right : List Char}
    (h : splitAfterLast c cs = some (left, right)) : left ++ right = cs := by
  simp only [splitAfterLast] at h
  split at h
  · cases h
  · obtain ⟨rfl, rfl⟩ := Prod.mk.inj (Option.some.inj h)
    rw [← List.reverse_append, List.takeWhile_append_dropWhile, List.reverse_reverse]

theorem splitAtSeparator_append {seps cs left right : List Char}
    (h : splitAtSeparator seps cs = some (left, right)) : left ++ right = cs := by
  obtain ⟨c, _, hc⟩ := List.exists_of_findSome?_eq_some h
  exact splitAfterLast_append hc

/-- The two parts of an IRI concatenate to it. -/
theorem Iri.parts_append (iri : Iri) : iri.parts.1 ++ iri.parts.2 = iri.text.toList := by
  unfold Iri.parts
  cases h : splitAtSeparator separators iri.text.toList with
  | none => rfl
  | some p => exact splitAtSeparator_append h

/-- The two parts of a split IRI concatenate to its text. -/
theorem Iri.append_of_split? {iri : Iri} {space name : String}
    (h : iri.split? = some (space, name)) : space ++ name = iri.text := by
  simp only [Iri.split?] at h
  split at h
  · cases h
  · obtain ⟨rfl, rfl⟩ := Prod.mk.inj (Option.some.inj h)
    rw [← String.ofList_append, iri.parts_append, String.ofList_toList]

end QuadBase.Rdf
