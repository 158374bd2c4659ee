import QuadBase.Dictionary.Vocabulary
import QuadBase.Proofs.Index.Growing

/-!
# Texts and their numbers

A vocabulary is a list of distinct texts with a search table in front.  `Vocabulary.Sound` is its
invariant.

* `Sound.number?_eq_some_iff` — **looking up a text and reading a number undo each other.**
* `Sound.intern_cases` — what interning can do: it finds the text, adds it behind the others, or has
  no room.

A vocabulary only ever grows at its end, and `Grows` says so.  Numbers keep their texts
(`Grows.text?`), and what a full vocabulary does not know it never learns (`Grows.full`).
-/

namespace QuadBase.Dictionary.Vocabulary

open QuadBase.Index

variable [Text.Hasher] {v w x : Vocabulary} {number other : UInt16} {text : String}

/-! ## Reading numbers -/

omit [Text.Hasher] in
lemma text?_eq_some_iff :
    v.text? number = some text ↔ 0 < number.toNat ∧ v.texts[number.toNat - 1]? = some text := by
  have hzero : number = 0 ↔ number.toNat = 0 := by
    rw [← UInt16.toNat_inj]
    rfl
  rw [text?]
  split
  next h => simp [hzero.1 h]
  next h =>
    rw [hzero] at h
    exact ⟨fun htext => ⟨Nat.pos_of_ne_zero h, htext⟩, And.right⟩

omit [Text.Hasher] in
lemma text?_push {texts : Array String} (slots slots' : Array (Slot Mark)) (new : String)
    (hroom : texts.size < capacity) :
    (⟨texts.push new, slots'⟩ : Vocabulary).text? number = some text ↔
      (number = UInt16.ofNat (texts.size + 1) ∧ text = new) ∨
        (⟨texts, slots⟩ : Vocabulary).text? number = some text := by
  have hnumber : number = UInt16.ofNat (texts.size + 1) ↔ number.toNat = texts.size + 1 := by
    have hfits : texts.size + 1 < UInt16.size := by
      simp only [capacity, UInt16.size] at hroom ⊢
      omega
    rw [← UInt16.toNat_inj, UInt16.toNat_ofNat_of_lt' hfits]
  simp only [text?_eq_some_iff, Array.getElem?_push, hnumber]
  constructor
  · rintro ⟨hpos, htext⟩
    split at htext
    next hlast => exact Or.inl ⟨by omega, (Option.some.inj htext).symm⟩
    next => exact Or.inr ⟨hpos, htext⟩
  · rintro (⟨hlast, rfl⟩ | ⟨hpos, htext⟩)
    · exact ⟨by omega, by rw [if_pos (by omega)]⟩
    · have hlt := (Array.getElem?_eq_some_iff.1 htext).1
      exact ⟨hpos, by rw [if_neg (by omega), htext]⟩

/-! ## The invariant -/

/-- The texts are distinct, and the slots lead to every one of them. -/
structure Sound (v : Vocabulary) : Prop where
  /-- No text has two numbers. -/
  injective : ∀ {number other text}, v.text? number = some text → v.text? other = some text →
    number = other
  size_le : v.size ≤ capacity
  roomy : Roomy (fun mark : Mark => mark.hash.toNat) v.slots v.size
  entry_mem_iff : ∀ mark : Mark, .entry mark ∈ v.slots ↔
    ∃ text, v.text? mark.number = some text ∧ mark.hash = Text.hashText text

lemma empty_sound : empty.Sound where
  injective h _ := by simp [empty, text?_eq_some_iff] at h
  size_le := Nat.zero_le _
  roomy := roomy_emptySlots (by decide) _
  entry_mem_iff mark := by simp [empty, entry_notMem_emptySlots, text?_eq_some_iff]

/-! ## Lookups -/

/-- **The number of a text is the number that has this text.** -/
theorem Sound.number?_eq_some_iff (h : v.Sound) :
    v.number? text = some number ↔ v.text? number = some text := by
  rw [number?]
  constructor
  · intro hnumber
    split at hnumber
    next position mark hsearch =>
      obtain rfl := Option.some.inj hnumber
      have hsame := (probe_found_mem hsearch).2
      rw [Bool.and_eq_true] at hsame
      exact eq_of_beq hsame.2
    next => cases hnumber
  · intro htext
    have hmem := (h.entry_mem_iff ⟨Text.hashText text, number⟩).2 ⟨text, htext, rfl⟩
    obtain ⟨position, mark, hsearch⟩ := h.roomy.placed.probe_found h.roomy.empty_mem
      (fun mark => mark.hash == Text.hashText text && v.text? mark.number == some text)
      hmem (by simp [htext])
    have hsame : v.text? mark.number = some text := by
      have := (probe_found_mem hsearch).2
      simp only [Bool.and_eq_true, beq_iff_eq] at this
      exact this.2
    rw [search, hsearch, h.injective htext hsame]

lemma Sound.number?_eq_none_iff (h : v.Sound) :
    v.number? text = none ↔ ∀ number, v.text? number ≠ some text := by
  rw [Option.eq_none_iff_forall_ne_some]
  exact forall_congr' fun number => not_congr h.number?_eq_some_iff

/-- No search comes around without an answer. -/
lemma Sound.search_ne_exhausted (h : v.Sound) (hash : UInt32) (text : String) :
    v.search hash text ≠ .exhausted :=
  probe_ne_exhausted h.roomy.empty_mem _ _

/-- The search for a new text ends at a free slot. -/
lemma Sound.search_vacant (h : v.Sound) (hnew : v.number? text = none) :
    ∃ position, v.search (Text.hashText text) text = .vacant position := by
  refine Probe.exists_vacant (h.search_ne_exhausted _ _) fun position mark hsearch => ?_
  rw [number?, hsearch] at hnew
  cases hnew

/-! ## Growing -/

/-- Texts are only added behind the others. -/
def Grows (v w : Vocabulary) : Prop :=
  v.texts.toList <+: w.texts.toList

omit [Text.Hasher] in
lemma Grows.refl (v : Vocabulary) : v.Grows v :=
  List.prefix_refl _

omit [Text.Hasher] in
lemma Grows.trans (h : v.Grows w) (h' : w.Grows x) : v.Grows x :=
  List.IsPrefix.trans h h'

omit [Text.Hasher] in
/-- Numbers keep their texts. -/
lemma Grows.text? (h : v.Grows w) (htext : v.text? number = some text) :
    w.text? number = some text := by
  rw [text?_eq_some_iff] at htext ⊢
  refine ⟨htext.1, ?_⟩
  rw [← Array.getElem?_toList] at htext ⊢
  obtain ⟨rest, hrest⟩ := h
  rw [← hrest, List.getElem?_append_left (List.getElem?_eq_some_iff.1 htext.2).1, htext.2]

omit [Text.Hasher] in
lemma Grows.size_le (h : v.Grows w) : v.size ≤ w.size := by
  simpa [size] using h.length_le

/-- A full vocabulary stays as it is. -/
lemma Grows.full (h : v.Grows w) (hw : w.Sound) (hfull : capacity ≤ v.size) :
    w.text? number = v.text? number := by
  have hle := hw.size_le
  have hlength : v.texts.toList.length = w.texts.toList.length := by
    have hgrown := h.size_le
    simp only [size, Array.length_toList] at *
    omega
  have hsame : w.texts = v.texts := Array.toList_inj.1 (h.eq_of_length hlength).symm
  rw [Vocabulary.text?, Vocabulary.text?, hsame]

/-! ## Adding a text -/

omit [Text.Hasher] in
lemma regrow_eq (slots : Array (Slot Mark)) :
    regrow slots = regrown (fun mark : Mark => mark.hash.toNat) slots := by
  rw [regrow, regrown]
  exact foldl_eq_placeAll (fun _ _ => rfl) (fun _ => rfl) (fun _ => rfl) _

omit [Text.Hasher] in
lemma add_eq (v : Vocabulary) (hash : UInt32) (text : String) (position : Nat) :
    v.add hash text position =
      (UInt16.ofNat (v.size + 1), ⟨v.texts.push text,
        entered (fun mark : Mark => mark.hash.toNat) v.slots v.size position
          ⟨hash, UInt16.ofNat (v.size + 1)⟩⟩) := by
  cases hcrowded : isCrowded (v.texts.size + 1) v.slots.size with
  | true => simp [add, size, entered, regrow_eq, hcrowded]
  | false => simp [add, size, entered, hcrowded]

/-- **Adding a new text keeps the vocabulary sound.** -/
theorem Sound.add (h : v.Sound) (hnew : v.number? text = none) (hroom : v.size < capacity)
    {position : Nat} (hsearch : v.search (Text.hashText text) text = .vacant position) :
    (v.add (Text.hashText text) text position).2.Sound := by
  have hnone := h.number?_eq_none_iff.1 hnew
  have hinjective := fun {number other text} => @h.injective number other text
  have hentries := h.entry_mem_iff
  obtain ⟨hroomy, hmem⟩ := h.roomy.enter ⟨Text.hashText text, UInt16.ofNat (v.size + 1)⟩ hsearch
  rw [add_eq]
  obtain ⟨texts, slots⟩ := v
  have hpush := fun {slots' : Array (Slot Mark)} {number : UInt16} {other : String} =>
    @text?_push number other texts slots slots' text hroom
  refine ⟨?_, ?_, ?_, ?_⟩
  · intro number other found hnumber hother
    rcases hpush.1 hnumber with ⟨rfl, rfl⟩ | hold <;>
      rcases hpush.1 hother with ⟨rfl, hsame⟩ | hold'
    · rfl
    · exact absurd hold' (hnone other)
    · exact absurd (hsame ▸ hold) (hnone number)
    · exact hinjective hold hold'
  · simp only [size, Array.size_push] at hroom ⊢
    omega
  · simpa only [size, Array.size_push] using hroomy
  · intro mark
    rw [hmem, hentries]
    constructor
    · rintro (rfl | ⟨found, hfound, hhash⟩)
      · exact ⟨text, hpush.2 (Or.inl ⟨rfl, rfl⟩), rfl⟩
      · exact ⟨found, hpush.2 (Or.inr hfound), hhash⟩
    · rintro ⟨found, hfound, hhash⟩
      rcases hpush.1 hfound with ⟨hnumber, rfl⟩ | hold
      · left
        obtain ⟨hash, number⟩ := mark
        rw [Mark.mk.injEq]
        exact ⟨hhash, hnumber⟩
      · exact Or.inr ⟨found, hold, hhash⟩

/-! ## Interning -/

/-- **What interning can do.** -/
theorem Sound.intern_cases (h : v.Sound) (text : String) :
    (∃ number, v.text? number = some text ∧ v.intern text = (some number, v)) ∨
    (v.number? text = none ∧ capacity ≤ v.size ∧ v.intern text = (none, v)) ∨
    (v.number? text = none ∧ v.size < capacity ∧ ∃ number w, v.intern text = (some number, w) ∧
      w.Sound ∧ v.Grows w ∧ w.text? number = some text ∧ w.size = v.size + 1) := by
  cases hnumber : v.number? text with
  | some number =>
    refine Or.inl ⟨number, h.number?_eq_some_iff.1 hnumber, ?_⟩
    rw [number?] at hnumber
    split at hnumber
    next position mark hsearch =>
      obtain rfl := Option.some.inj hnumber
      rw [intern, hsearch]
    next => cases hnumber
  | none =>
    obtain ⟨position, hsearch⟩ := h.search_vacant hnumber
    simp only [intern, hsearch]
    by_cases hfull : capacity ≤ v.size
    · exact Or.inr (Or.inl ⟨trivial, hfull, by rw [if_pos hfull]⟩)
    · have hroom := Nat.lt_of_not_le hfull
      have hsound := h.add hnumber hroom hsearch
      rw [add_eq] at hsound
      refine Or.inr (Or.inr
        ⟨trivial, hroom, _, _, by rw [if_neg hfull, add_eq], hsound, ?_, ?_, ?_⟩)
      · simp [Grows]
      · obtain ⟨texts, slots⟩ := v
        exact (text?_push slots _ text hroom).2 (Or.inl ⟨rfl, rfl⟩)
      · simp [size]

/-- A vocabulary stays in order, and the number that interning answers is the number of the text.
There is no answer only if the vocabulary is full and does not know the text. -/
theorem Sound.intern (h : v.Sound) {answer : Option UInt16} (heq : v.intern text = (answer, w)) :
    w.Sound ∧ v.Grows w ∧ (∀ number, answer = some number → w.text? number = some text) ∧
      (answer = none → capacity ≤ w.size ∧ ∀ number, w.text? number ≠ some text) := by
  rcases h.intern_cases text with
    ⟨number, htext, hcase⟩ | ⟨hnew, hfull, hcase⟩ |
      ⟨-, -, number, new, hcase, hnew, hgrows, htext, -⟩
  · obtain ⟨rfl, rfl⟩ := Prod.mk.inj (hcase.symm.trans heq)
    refine ⟨h, .refl v, ?_, fun hnone => by cases hnone⟩
    intro other hother
    rwa [← Option.some.inj hother]
  · obtain ⟨rfl, rfl⟩ := Prod.mk.inj (hcase.symm.trans heq)
    exact ⟨h, .refl v, fun other hother => (by cases hother),
      fun _ => ⟨hfull, h.number?_eq_none_iff.1 hnew⟩⟩
  · obtain ⟨rfl, rfl⟩ := Prod.mk.inj (hcase.symm.trans heq)
    refine ⟨hnew, hgrows, ?_, fun hnone => by cases hnone⟩
    intro other hother
    rwa [← Option.some.inj hother]

/-- A text that has a number keeps it. -/
lemma Sound.intern_of_text? (h : v.Sound) (htext : v.text? number = some text) :
    v.intern text = (some number, v) := by
  rcases h.intern_cases text with ⟨found, hfound, heq⟩ | ⟨hnew, -⟩ | ⟨hnew, -⟩
  · rw [heq, h.injective hfound htext]
  · exact absurd htext (h.number?_eq_none_iff.1 hnew number)
  · exact absurd htext (h.number?_eq_none_iff.1 hnew number)

/-- A full vocabulary has no number for a new text. -/
lemma Sound.intern_of_full (h : v.Sound) (hfull : capacity ≤ v.size)
    (hnew : ∀ number, v.text? number ≠ some text) : v.intern text = (none, v) := by
  rcases h.intern_cases text with ⟨found, hfound, -⟩ | ⟨-, -, heq⟩ | ⟨-, hroom, -⟩
  · exact absurd hfound (hnew found)
  · exact heq
  · exact absurd hroom (Nat.not_lt.2 hfull)

lemma ofList_sound (texts : List String) : (ofList texts).Sound := by
  have hall : ∀ v : Vocabulary, v.Sound →
      (texts.foldl (fun v text => (v.intern text).2) v).Sound := by
    induction texts with
    | nil => exact fun v hv => hv
    | cons text texts ih => exact fun v hv => ih _ (hv.intern rfl).1
  exact hall empty empty_sound

end QuadBase.Dictionary.Vocabulary
