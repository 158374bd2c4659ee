import Mathlib.Data.List.TakeWhile
import Mathlib.Tactic.Common
import QuadBase.Rdf.Iri

/-!
# Where an IRI is split

The strongest separator of an IRI decides, and of it the last occurrence, no matter which weaker
separators come behind.  Positions count bytes of the UTF-8 text, so a position may lie within a
character; this one never does.

* `splitAfterLast_append_cons` — splitting behind a separator that does not come again.
* `Iri.parts_of_isStrongest` — the two parts of an IRI with a separator.
* `Iri.split?_eq_some_iff` — an IRI is split if neither part is empty, and into these parts.
* `Iri.splits_behind_strongest` — **where an IRI is split, and that the parts tell the IRI.**
-/

namespace QuadBase.Rdf

variable {c : Char} {cs after : List Char}

/-! ## Behind the last occurrence -/

/-- Splitting behind a character that does not come again. -/
lemma splitAfterLast_append_cons (before : List Char) (h : c ∉ after) :
    splitAfterLast c (before ++ c :: after) = some (before ++ [c], after) := by
  have hpast : ∀ d ∈ after.reverse, (decide (d ≠ c)) = true := by
    intro d hd
    refine decide_eq_true ?_
    rintro rfl
    exact h (List.mem_reverse.1 hd)
  have hreverse : (before ++ c :: after).reverse = after.reverse ++ (c :: before.reverse) := by
    simp
  have hdrop : (after.reverse ++ (c :: before.reverse)).dropWhile (· ≠ c) =
      c :: before.reverse := by
    rw [List.dropWhile_append_of_pos hpast, List.dropWhile_cons_of_neg (by simp)]
  have htake : (after.reverse ++ (c :: before.reverse)).takeWhile (· ≠ c) = after.reverse := by
    rw [List.takeWhile_append_of_pos hpast, List.takeWhile_cons_of_neg (by simp), List.append_nil]
  rw [splitAfterLast, hreverse, hdrop, htake]
  simp

/-- A character that occurs has a last occurrence. -/
lemma exists_last (h : c ∈ cs) : ∃ before after, cs = before ++ c :: after ∧ c ∉ after := by
  obtain ⟨after, before, hsplit, hnot⟩ := List.eq_append_cons_of_mem (List.mem_reverse.2 h)
  refine ⟨before.reverse, after.reverse, ?_, fun hmem => hnot (List.mem_reverse.1 hmem)⟩
  rw [← List.reverse_reverse cs, hsplit]
  simp

lemma splitAfterLast_of_notMem (h : c ∉ cs) : splitAfterLast c cs = none := by
  have hdrop : cs.reverse.dropWhile (· ≠ c) = [] := by
    rw [List.dropWhile_eq_nil_iff]
    intro d hd
    refine decide_eq_true ?_
    rintro rfl
    exact h (List.mem_reverse.1 hd)
  rw [splitAfterLast, hdrop]
  rfl

/-- `index` is the byte position right behind the last `c` of a text. -/
def IsBehindLast (c : Char) (text : String) (index : Nat) : Prop :=
  ∃ before after : String, text = before.push c ++ after ∧ c ∉ after.toList ∧
    index = (before.push c).utf8ByteSize

/-- There is one last occurrence. -/
lemma IsBehindLast.unique {text : String} {index other : Nat} (h : IsBehindLast c text index)
    (hother : IsBehindLast c text other) : index = other := by
  obtain ⟨before, after, rfl, hafter, rfl⟩ := h
  obtain ⟨before', after', htext, hafter', rfl⟩ := hother
  have hlists := congrArg String.toList htext
  simp only [String.toList_append, String.toList_push, List.append_assoc, List.singleton_append]
    at hlists
  have hsplit := splitAfterLast_append_cons before.toList hafter
  rw [hlists, splitAfterLast_append_cons before'.toList hafter'] at hsplit
  have hbefore := (Prod.mk.inj (Option.some.inj hsplit)).1
  rw [← String.toList_push, ← String.toList_push, String.toList_inj] at hbefore
  rw [hbefore]

/-- A text is cut in two in one way at a byte position. -/
lemma append_inj_of_utf8ByteSize {left left' right right' : String}
    (h : left ++ right = left' ++ right') (hsize : left.utf8ByteSize = left'.utf8ByteSize) :
    left = left' ∧ right = right' := by
  have hbytes := congrArg String.toByteArray h
  rw [String.toByteArray_append, String.toByteArray_append] at hbytes
  obtain rfl := String.toByteArray_inj.1 (ByteArray.append_inj_left hbytes hsize)
  exact ⟨rfl, (String.append_right_inj left).1 h⟩

/-! ## The strongest separator -/

/-- The separator that decides where a text is split: `#`, without it `/`, without both `:`. -/
def IsStrongest (c : Char) (text : String) : Prop :=
  c ∈ text.toList ∧ (c = '#' ∨ c = '/' ∧ '#' ∉ text.toList ∨
    c = ':' ∧ '#' ∉ text.toList ∧ '/' ∉ text.toList)

lemma splitAtSeparator_of_isStrongest {text : String} (h : IsStrongest c text) :
    splitAtSeparator separators text.toList = splitAfterLast c text.toList := by
  obtain ⟨hmem, hc⟩ := h
  obtain ⟨before, after, hsplit, hafter⟩ := exists_last hmem
  have hsome := splitAfterLast_append_cons before hafter
  rw [← hsplit] at hsome
  rcases hc with rfl | ⟨rfl, hhash⟩ | ⟨rfl, hhash, hslash⟩
  · rw [splitAtSeparator, separators, List.findSome?_cons, hsome]
  · rw [splitAtSeparator, separators, List.findSome?_cons, splitAfterLast_of_notMem hhash,
      List.findSome?_cons, hsome]
  · rw [splitAtSeparator, separators, List.findSome?_cons, splitAfterLast_of_notMem hhash,
      List.findSome?_cons, splitAfterLast_of_notMem hslash, List.findSome?_cons, hsome]

namespace Iri

variable {iri : Iri} {space name : String}

/-- **The two parts of an IRI with a separator.** -/
lemma parts_of_isStrongest (h : IsStrongest c iri.text) :
    ∃ before after : String, iri.text = before.push c ++ after ∧ c ∉ after.toList ∧
      iri.parts = ((before.push c).toList, after.toList) := by
  obtain ⟨before, after, hsplit, hafter⟩ := exists_last h.1
  refine ⟨.ofList before, .ofList after, ?_, by rwa [String.toList_ofList], ?_⟩
  · rw [← String.toList_inj, hsplit]
    simp
  · rw [parts, splitAtSeparator_of_isStrongest h, hsplit, splitAfterLast_append_cons before hafter]
    simp

/-- An IRI without separators is all local name. -/
lemma parts_of_plain (h : ∀ c ∈ separators, c ∉ iri.text.toList) :
    iri.parts = ([], iri.text.toList) := by
  have hnone : splitAtSeparator separators iri.text.toList = none := by
    rw [splitAtSeparator, List.findSome?_eq_none_iff]
    exact fun c hc => splitAfterLast_of_notMem (h c hc)
  rw [parts, hnone]
  rfl

lemma exists_isStrongest (h : ∃ c ∈ separators, c ∈ iri.text.toList) :
    ∃ c, IsStrongest c iri.text := by
  by_cases hhash : '#' ∈ iri.text.toList
  · exact ⟨'#', hhash, .inl rfl⟩
  by_cases hslash : '/' ∈ iri.text.toList
  · exact ⟨'/', hslash, .inr (.inl ⟨rfl, hhash⟩)⟩
  obtain ⟨c, hc, hmem⟩ := h
  simp only [separators, List.mem_cons, List.not_mem_nil, or_false] at hc
  rcases hc with rfl | rfl | rfl
  · exact absurd hmem hhash
  · exact absurd hmem hslash
  · exact ⟨':', hmem, .inr (.inr ⟨rfl, hhash, hslash⟩)⟩

lemma isBehindLast_localNameIndex (h : IsStrongest c iri.text) :
    IsBehindLast c iri.text iri.localNameIndex := by
  obtain ⟨before, after, htext, hafter, hparts⟩ := parts_of_isStrongest h
  refine ⟨before, after, htext, hafter, ?_⟩
  rw [localNameIndex, hparts, String.ofList_toList]

/-- The local name starts at the front exactly if there is no separator. -/
lemma localNameIndex_eq_zero_iff :
    iri.localNameIndex = 0 ↔ ∀ c ∈ separators, c ∉ iri.text.toList := by
  constructor
  · intro hzero c hc hmem
    obtain ⟨d, hd⟩ := exists_isStrongest ⟨c, hc, hmem⟩
    obtain ⟨before, after, -, -, hindex⟩ := isBehindLast_localNameIndex hd
    have hpos := d.utf8Size_pos
    rw [hzero, String.utf8ByteSize_push] at hindex
    omega
  · intro h
    rw [localNameIndex, parts_of_plain h]
    rfl

/-! ## The two parts -/

lemma space_append_name (iri : Iri) :
    iri.text = String.ofList iri.parts.1 ++ String.ofList iri.parts.2 := by
  rw [← String.ofList_append, iri.parts_append, String.ofList_toList]

/-- The local name starts with a whole character. -/
lemma isValid_localNameIndex (iri : Iri) :
    (⟨iri.localNameIndex⟩ : String.Pos.Raw).IsValid iri.text :=
  String.Pos.Raw.isValid_iff_exists_append.2 ⟨_, _, iri.space_append_name, rfl⟩

/-- **An IRI is split at its local name, if neither part is empty.** -/
lemma split?_eq_some_iff : iri.split? = some (space, name) ↔
    space ++ name = iri.text ∧ space.utf8ByteSize = iri.localNameIndex ∧
      space ≠ "" ∧ name ≠ "" := by
  have hempty : ∀ cs : List Char, cs.isEmpty = true ↔ String.ofList cs = "" := fun cs => by
    rw [List.isEmpty_iff, String.ofList_eq_empty_iff]
  rw [split?]
  dsimp only
  constructor
  · intro h
    split at h
    · cases h
    next hparts =>
      simp only [Bool.or_eq_true, hempty, not_or] at hparts
      obtain ⟨rfl, rfl⟩ := Prod.mk.inj (Option.some.inj h)
      exact ⟨iri.space_append_name.symm, rfl, hparts⟩
  · rintro ⟨happend, hsize, hspace, hname⟩
    obtain ⟨rfl, rfl⟩ := append_inj_of_utf8ByteSize (happend.trans iri.space_append_name) hsize
    rw [if_neg]
    simp only [Bool.or_eq_true, hempty, not_or]
    exact ⟨hspace, hname⟩

/-- Neither part is empty if the local name starts within the text. -/
lemma isSome_split?_iff : iri.split?.isSome ↔
    0 < iri.localNameIndex ∧ iri.localNameIndex < iri.text.utf8ByteSize := by
  have hpositive : ∀ {text : String}, text ≠ "" ↔ 0 < text.utf8ByteSize := by
    intro text
    rw [Nat.pos_iff_ne_zero, ne_eq, ne_eq, String.utf8ByteSize_eq_zero_iff]
  have htotal := congrArg String.utf8ByteSize iri.space_append_name
  rw [String.utf8ByteSize_append] at htotal
  rw [Option.isSome_iff_exists, Prod.exists]
  constructor
  · rintro ⟨space, name, h⟩
    obtain ⟨happend, hsize, hspace, hname⟩ := split?_eq_some_iff.1 h
    rw [← happend, ← hsize, String.utf8ByteSize_append]
    rw [hpositive] at hspace hname
    omega
  · rintro ⟨hlow, hhigh⟩
    refine ⟨_, _, split?_eq_some_iff.2 ⟨iri.space_append_name.symm, rfl, hpositive.2 hlow,
      hpositive.2 ?_⟩⟩
    rw [localNameIndex] at hhigh
    omega

/-- The separator is the end of the namespace, and does not come again. -/
lemma ends_of_split? (h : iri.split? = some (space, name)) :
    ∃ c before, IsStrongest c iri.text ∧ space = String.push before c ∧ c ∉ name.toList := by
  obtain ⟨happend, hsize, hspace, -⟩ := split?_eq_some_iff.1 h
  have hindex : iri.localNameIndex ≠ 0 := by
    rwa [← hsize, ne_eq, String.utf8ByteSize_eq_zero_iff]
  rw [ne_eq, localNameIndex_eq_zero_iff] at hindex
  push Not at hindex
  obtain ⟨c, hc⟩ := exists_isStrongest hindex
  obtain ⟨before, after, htext, hafter, hbehind⟩ := isBehindLast_localNameIndex hc
  obtain ⟨rfl, rfl⟩ := append_inj_of_utf8ByteSize (happend.trans htext) (hsize.trans hbehind)
  exact ⟨c, before, hc, rfl, hafter⟩

/-- **An IRI is split right behind the last of its strongest separator**, unless a part would be
empty.  The two parts are those at this byte position, which is never within a character, and two
pairs that IRIs are split into never make the same IRI. -/
theorem splits_behind_strongest (iri : Iri) :
    (iri.localNameIndex = 0 ↔
      '#' ∉ iri.text.toList ∧ '/' ∉ iri.text.toList ∧ ':' ∉ iri.text.toList) ∧
    (∀ c, IsStrongest c iri.text →
      ∀ index, IsBehindLast c iri.text index ↔ index = iri.localNameIndex) ∧
    (⟨iri.localNameIndex⟩ : String.Pos.Raw).IsValid iri.text ∧
    (iri.split?.isSome ↔ 0 < iri.localNameIndex ∧ iri.localNameIndex < iri.text.utf8ByteSize) ∧
    (∀ space name, iri.split? = some (space, name) ↔
      space ++ name = iri.text ∧ space.utf8ByteSize = iri.localNameIndex ∧
        space ≠ "" ∧ name ≠ "") ∧
    (∀ space name, iri.split? = some (space, name) →
      ∃ c before, IsStrongest c iri.text ∧ space = String.push before c ∧ c ∉ name.toList) ∧
    ∀ (other : Iri) (parts parts' : String × String), iri.split? = some parts →
      other.split? = some parts' → parts'.1 ++ parts'.2 = parts.1 ++ parts.2 → parts' = parts := by
  refine ⟨?_, fun c hc index => ⟨fun h => h.unique (isBehindLast_localNameIndex hc), ?_⟩,
    iri.isValid_localNameIndex, isSome_split?_iff, fun _ _ => split?_eq_some_iff,
    fun _ _ => ends_of_split?, fun other parts parts' h h' happend => ?_⟩
  · rw [localNameIndex_eq_zero_iff]
    simp [separators]
  · rintro rfl
    exact isBehindLast_localNameIndex hc
  · have htext : other.text = iri.text := by
      rw [← append_of_split? h, ← append_of_split? h', happend]
    obtain rfl : other = iri := by
      cases other
      cases iri
      exact congrArg Iri.mk htext
    exact Option.some.inj (h'.symm.trans h)

/-- A weaker separator behind the strongest one stays part of the local name. -/
example : (⟨"http://é.org/ü#ß/x:y"⟩ : Iri).localNameIndex = 17 ∧
    (⟨"http://é.org/ü#ß/x:y"⟩ : Iri).split? = some ("http://é.org/ü#", "ß/x:y") := by
  decide +kernel

end Iri

end QuadBase.Rdf
