import Mathlib.Data.List.Forall2
import Mathlib.Data.List.Induction
import Mathlib.Data.List.Nodup
import QuadBase.Dictionary.Basic
import QuadBase.Proofs.Dictionary.Vocabulary

/-!
# Tables of interned words

A vocabulary behaves like the row of its words, in which a word is numbered by its place.  Any number
of tables may be around: a table is created with first words or copied from another one, and from
then on grows on its own.

* `learned`, `numberIn` — the row after one more word, and the number of a word.
* `Sound.number?_eq`, `Sound.intern_eq` — **a table answers what its row of words says.**
* `Event` — what happens to tables: they are created, copied and asked.  `Event.handle` does it to
  tables, `Event.learn` to rows of words.
* `interning_tables` — **after any events, each table answers what its row of words says**, and no
  number ever changes.
-/

namespace QuadBase.Dictionary.Vocabulary

open TermDictionary (numbered)

/-! ## Rows of words -/

/-- The words after one more is to be learned: a new one goes behind the others if there is room. -/
def learned (words : List String) (text : String) : List String :=
  if text ∈ words ∨ capacity ≤ words.length then words else words ++ [text]

/-- The place of a word, counted from one.  For a new word it is the place behind the others. -/
def numberIn (words : List String) (text : String) : UInt16 :=
  UInt16.ofNat (words.idxOf text + 1)

lemma learned_of_mem_or_full {words : List String} {text : String}
    (h : text ∈ words ∨ capacity ≤ words.length) : learned words text = words :=
  if_pos h

lemma learned_isPrefix (words : List String) (text : String) : words <+: learned words text := by
  rw [learned]
  split
  next => exact List.prefix_refl _
  next => exact List.prefix_append _ _

/-- A new word keeps its number when it is learned. -/
lemma numberIn_concat {words : List String} {text : String} (h : text ∉ words) :
    numberIn (words ++ [text]) text = numberIn words text := by
  rw [numberIn, numberIn, List.idxOf_append_of_notMem h, List.idxOf_cons_self,
    List.idxOf_eq_length h, Nat.add_zero]

variable [Text.Hasher] {v w : Vocabulary} {text : String} {number : UInt16}

/-! ## What a table answers -/

omit [Text.Hasher] in
/-- The word with a number is the one at its place. -/
lemma text?_eq (v : Vocabulary) (number : UInt16) :
    v.text? number = if number = 0 then none else v.texts.toList[number.toNat - 1]? := by
  rw [text?, Array.getElem?_toList]

lemma Sound.length_le (h : v.Sound) : v.texts.toList.length ≤ capacity := by
  rw [Array.length_toList]
  exact h.size_le

/-- The word at a place has the number of this place. -/
lemma Sound.text?_ofNat (h : v.Sound) {i : Nat} (hi : i < v.texts.toList.length) :
    v.text? (UInt16.ofNat (i + 1)) = some v.texts.toList[i] := by
  have hle := h.length_le
  have hnumber : (UInt16.ofNat (i + 1)).toNat = i + 1 := by
    rw [UInt16.toNat_ofNat_of_lt']
    simp only [capacity, UInt16.size] at *
    omega
  rw [text?_eq_some_iff, hnumber, ← Array.getElem?_toList, Nat.add_sub_cancel,
    List.getElem?_eq_getElem hi]
  exact ⟨Nat.succ_pos i, rfl⟩

lemma Sound.nodup (h : v.Sound) : v.texts.toList.Nodup := by
  have hle := h.length_le
  rw [List.nodup_iff_injective_get]
  intro ⟨i, hi⟩ ⟨j, hj⟩ heq
  have hi' := h.text?_ofNat hi
  rw [show v.texts.toList[i] = v.texts.toList[j] from heq] at hi'
  have hsame := congrArg UInt16.toNat (h.injective hi' (h.text?_ofNat hj))
  have hsize : UInt16.size = 65536 := rfl
  have hcapacity : capacity = 65534 := rfl
  rw [UInt16.toNat_ofNat_of_lt' (by omega), UInt16.toNat_ofNat_of_lt' (by omega)] at hsame
  exact Fin.ext (Nat.succ.inj hsame)

/-- The number of a word is its place. -/
lemma Sound.text?_numberIn (h : v.Sound) (hmem : text ∈ v.texts.toList) :
    v.text? (numberIn v.texts.toList text) = some text := by
  have hlt := List.idxOf_lt_length_of_mem hmem
  rw [numberIn, h.text?_ofNat hlt, List.getElem_idxOf hlt]

omit [Text.Hasher] in
lemma mem_of_text? (htext : v.text? number = some text) : text ∈ v.texts.toList := by
  rw [text?_eq_some_iff, ← Array.getElem?_toList] at htext
  exact List.mem_of_getElem? htext.2

/-- **A word is looked up by its place**, and other texts are not found. -/
theorem Sound.number?_eq (h : v.Sound) (text : String) :
    v.number? text =
      if text ∈ v.texts.toList then some (numberIn v.texts.toList text) else none := by
  split
  next hmem => exact h.number?_eq_some_iff.2 (h.text?_numberIn hmem)
  next hnew => exact h.number?_eq_none_iff.2 fun number htext => hnew (mem_of_text? htext)

lemma Sound.number?_eq_none_iff_notMem (h : v.Sound) :
    v.number? text = none ↔ text ∉ v.texts.toList := by
  rw [h.number?_eq]
  split
  next hmem => simp [hmem]
  next hnew => simp [hnew]

omit [Text.Hasher] in
/-- A word that is learned goes behind the others. -/
lemma Grows.toList_eq (h : v.Grows w) (hsize : w.size = v.size + 1)
    (hnew : text ∉ v.texts.toList) (hmem : text ∈ w.texts.toList) :
    w.texts.toList = v.texts.toList ++ [text] := by
  obtain ⟨rest, hrest⟩ := h
  have hlength := congrArg List.length hrest
  rw [List.length_append, Array.length_toList, Array.length_toList] at hlength
  have hone : rest.length = 1 := Nat.add_left_cancel (hlength.trans hsize)
  obtain ⟨last, rfl⟩ := List.length_eq_one_iff.1 hone
  rw [← hrest, List.mem_append, List.mem_singleton] at hmem
  rw [← hrest, hmem.resolve_left hnew]

/-- **What interning does**: it answers the place of the word, and the row is the learned one.  Where
the row stays the same, so does the table. -/
theorem Sound.intern_eq (h : v.Sound) (text : String) :
    (v.intern text).1 =
        (if text ∈ v.texts.toList ∨ v.texts.toList.length < capacity then
          some (numberIn v.texts.toList text) else none) ∧
      (v.intern text).2.texts.toList = learned v.texts.toList text ∧
      (text ∈ v.texts.toList ∨ capacity ≤ v.texts.toList.length → (v.intern text).2 = v) := by
  have hlength : v.texts.toList.length = v.size := Array.length_toList
  rcases h.intern_cases text with ⟨number, htext, heq⟩ | ⟨hnew, hfull, heq⟩ |
    ⟨hnew, hroom, number, w, heq, hw, hgrows, htext, hsize⟩
  · have hmem := mem_of_text? htext
    rw [heq, if_pos (.inl hmem), learned_of_mem_or_full (.inl hmem),
      h.injective htext (h.text?_numberIn hmem)]
    exact ⟨rfl, rfl, fun _ => rfl⟩
  · have hnew := h.number?_eq_none_iff_notMem.1 hnew
    rw [← hlength] at hfull
    rw [heq, if_neg (not_or.2 ⟨hnew, Nat.not_lt.2 hfull⟩), learned_of_mem_or_full (.inr hfull)]
    exact ⟨rfl, rfl, fun _ => rfl⟩
  · have hnew := h.number?_eq_none_iff_notMem.1 hnew
    rw [← hlength] at hroom
    -- there is one word more, and the new word is there, so it is the last
    have hrow := hgrows.toList_eq hsize hnew (mem_of_text? htext)
    have hstays : ¬ (text ∈ v.texts.toList ∨ capacity ≤ v.texts.toList.length) :=
      not_or.2 ⟨hnew, Nat.not_le.2 hroom⟩
    rw [heq, if_pos (.inr hroom), learned, if_neg hstays,
      hw.injective htext (hw.text?_numberIn (mem_of_text? htext)), hrow, numberIn_concat hnew]
    exact ⟨rfl, rfl, fun h => absurd h hstays⟩

/-! ## Tables and rows of words -/

/-- The calls that ask a table for the number of a word.  The first leaves it alone, the others learn
the word, and they differ in what they answer if there is no room. -/
inductive Call where
  | get
  | getOrInsert
  | tryInsert

def Call.handle (call : Call) (v : Vocabulary) (text : String) : Vocabulary :=
  match call with
  | .get => v
  | .getOrInsert | .tryInsert => (v.intern text).2

def Call.learn (call : Call) (words : List String) (text : String) : List String :=
  match call with
  | .get => words
  | .getOrInsert | .tryInsert => learned words text

omit [Text.Hasher] in
lemma Call.learn_isPrefix (call : Call) (words : List String) (text : String) :
    words <+: call.learn words text := by
  cases call with
  | get => exact List.prefix_refl _
  | getOrInsert | tryInsert => exact learned_isPrefix words text

/-- One more of the first words of a table. -/
def seed (name : VocabularyName) (v : Vocabulary) (text : String) :
    Except DictionaryError Vocabulary :=
  (numbered name (v.intern text).1).map fun _ => (v.intern text).2

/-- A new table with first words, if it has room for them. -/
def seeded (name : VocabularyName) (texts : List String) : Except DictionaryError Vocabulary :=
  texts.foldlM (seed name) empty

/-- One more of the first words of a row. -/
def seedWord? (words : List String) (text : String) : Option (List String) :=
  if text ∈ words ∨ words.length < capacity then some (learned words text) else none

/-- A new row with first words, if it has room for them. -/
def seededWords? (texts : List String) : Option (List String) :=
  texts.foldlM seedWord? []

/-- What happens to tables. -/
inductive Event where
  /-- There is a new table with these first words, unless they are too many. -/
  | seed (name : VocabularyName) (texts : List String)
  /-- There is a new table, which is a copy. -/
  | clone (table : Nat)
  | ask (table : Nat) (call : Call) (text : String)

def Event.handle (tables : List Vocabulary) : Event → List Vocabulary
  | .seed name texts => tables ++ (seeded name texts).toOption.toList
  | .clone table => tables ++ tables[table]?.toList
  | .ask table call text => tables.modify table (call.handle · text)

def Event.learn (rows : List (List String)) : Event → List (List String)
  | .seed _ texts => rows ++ (seededWords? texts).toList
  | .clone table => rows ++ rows[table]?.toList
  | .ask table call text => rows.modify table (call.learn · text)

/-- All tables after some events. -/
def tables (events : List Event) : List Vocabulary :=
  events.foldl Event.handle []

/-- The words of all tables after some events. -/
def wordRows (events : List Event) : List (List String) :=
  events.foldl Event.learn []

/-- The table is in order, and these are its words. -/
structure Lists (v : Vocabulary) (words : List String) : Prop where
  sound : v.Sound
  toList_eq : v.texts.toList = words

variable {words : List String}

lemma Lists.handle (h : v.Lists words) (call : Call) (text : String) :
    (call.handle v text).Lists (call.learn words text) := by
  obtain ⟨hsound, rfl⟩ := h
  cases call with
  | get => exact ⟨hsound, rfl⟩
  | getOrInsert | tryInsert => exact ⟨(hsound.intern rfl).1, (hsound.intern_eq text).2.1⟩

/-- A table has room for first words exactly if its row has, and then it lists them. -/
lemma Lists.foldlM (h : v.Lists words) (name : VocabularyName) (texts : List String) :
    Option.Rel Lists (texts.foldlM (seed name) v).toOption (texts.foldlM seedWord? words) := by
  induction texts generalizing v words with
  | nil => exact .some h
  | cons text texts ih =>
    have hnext := h.handle .tryInsert text
    obtain ⟨hsound, rfl⟩ := h
    rw [List.foldlM_cons, List.foldlM_cons, seed, seedWord?, (hsound.intern_eq text).1]
    split
    next => exact ih hnext
    next => exact .none

lemma seeded_lists (name : VocabularyName) (texts : List String) :
    Option.Rel Lists (seeded name texts).toOption (seededWords? texts) :=
  Lists.foldlM ⟨empty_sound, rfl⟩ name texts

/-- A table with first words is the one that learns them one by one. -/
lemma eq_ofList_of_seeded {name : VocabularyName} {texts : List String}
    (h : seeded name texts = .ok v) : v = ofList texts := by
  have hall : ∀ w : Vocabulary, texts.foldlM (seed name) w = .ok v →
      v = texts.foldl (fun v text => (v.intern text).2) w := by
    clear h
    induction texts with
    | nil => exact fun w hw => (Except.ok.inj hw).symm
    | cons text texts ih =>
      intro w hw
      rw [List.foldlM_cons, seed] at hw
      cases hnumber : numbered name (w.intern text).1 with
      | ok number =>
        rw [hnumber] at hw
        exact ih _ hw
      | error e =>
        rw [hnumber] at hw
        cases hw
  exact hall empty h

variable {vs : List Vocabulary} {rows : List (List String)}

lemma lists_getElem? (h : List.Forall₂ Lists vs rows) (table : Nat) :
    Option.Rel Lists vs[table]? rows[table]? := by
  induction h generalizing table with
  | nil => exact .none
  | cons hfirst _ ih =>
    cases table with
    | zero => exact .some hfirst
    | succ table => exact ih table

lemma exists_row (h : List.Forall₂ Lists vs rows) {table : Nat} (hv : vs[table]? = some v) :
    ∃ words, rows[table]? = some words ∧ v.Lists words := by
  have hlists := lists_getElem? h table
  rw [hv] at hlists
  generalize rows[table]? = words? at hlists
  cases hlists with
  | some hfound => exact ⟨_, rfl, hfound⟩

lemma exists_table (h : List.Forall₂ Lists vs rows) {table : Nat}
    (hwords : rows[table]? = some words) : ∃ v, vs[table]? = some v ∧ v.Lists words := by
  have hlists := lists_getElem? h table
  rw [hwords] at hlists
  generalize vs[table]? = v? at hlists
  cases hlists with
  | some hfound => exact ⟨_, rfl, hfound⟩

/-- **Each table lists its words after one more event** if all did before. -/
lemma handle_lists (h : List.Forall₂ Lists vs rows) (event : Event) :
    List.Forall₂ Lists (event.handle vs) (event.learn rows) := by
  have happend : ∀ {v? : Option Vocabulary} {words? : Option (List String)},
      Option.Rel Lists v? words? → List.Forall₂ Lists (vs ++ v?.toList) (rows ++ words?.toList) := by
    intro v? words? hnew
    refine List.rel_append h ?_
    cases hnew with
    | some hlists => exact .cons hlists .nil
    | none => exact .nil
  cases event with
  | seed name texts => exact happend (seeded_lists name texts)
  | clone table => exact happend (lists_getElem? h table)
  | ask table call text =>
    rw [Event.handle, Event.learn]
    clear happend
    induction h generalizing table with
    | nil => cases table <;> exact .nil
    | cons hfirst hrest ih =>
      cases table with
      | zero => exact .cons (hfirst.handle call text) hrest
      | succ table => exact .cons hfirst (ih table)

/-- **After any events each table lists its words.** -/
theorem tables_lists (events : List Event) : List.Forall₂ Lists (tables events) (wordRows events) := by
  induction events using List.reverseRecOn with
  | nil => exact .nil
  | append_singleton events event ih =>
    rw [tables, wordRows, List.foldl_concat, List.foldl_concat]
    exact handle_lists ih event

/-! ## Numbers stay -/

omit [Text.Hasher] in
/-- Rows of words only grow at their ends. -/
lemma learn_getElem? (event : Event) {table : Nat} (h : rows[table]? = some words) :
    ∃ grown, (event.learn rows)[table]? = some grown ∧ words <+: grown := by
  have hlt := (List.getElem?_eq_some_iff.1 h).1
  cases event with
  | seed | clone =>
    exact ⟨words, by rw [Event.learn, List.getElem?_append_left hlt, h], List.prefix_refl _⟩
  | ask other call text =>
    refine ⟨if other = table then call.learn words text else words, ?_, ?_⟩
    · rw [Event.learn, List.getElem?_modify, h]
      rfl
    · split
      next => exact call.learn_isPrefix words text
      next => exact List.prefix_refl _

omit [Text.Hasher] in
lemma wordRows_getElem? (events more : List Event) {table : Nat}
    (h : (wordRows events)[table]? = some words) :
    ∃ grown, (wordRows (events ++ more))[table]? = some grown ∧ words <+: grown := by
  induction more using List.reverseRecOn with
  | nil => exact ⟨words, by rwa [List.append_nil], List.prefix_refl _⟩
  | append_singleton more event ih =>
    obtain ⟨grown, hgrown, hprefix⟩ := ih
    rw [wordRows, ← List.append_assoc, List.foldl_concat]
    obtain ⟨last, hlast, hprefix'⟩ := learn_getElem? event hgrown
    exact ⟨last, hlast, hprefix.trans hprefix'⟩

/-- **Numbers stay**, whatever happens after them. -/
lemma tables_grow (events more : List Event) {table : Nat} (h : (tables events)[table]? = some v) :
    ∃ w, (tables (events ++ more))[table]? = some w ∧ v.Grows w := by
  obtain ⟨words, hwords, hv⟩ := exists_row (tables_lists events) h
  obtain ⟨grown, hgrown, hprefix⟩ := wordRows_getElem? events more hwords
  obtain ⟨w, hw, hlists⟩ := exists_table (tables_lists (events ++ more)) hgrown
  refine ⟨w, hw, ?_⟩
  rw [Grows, hv.toList_eq, hlists.toList_eq]
  exact hprefix

/-! ## All answers -/

/-- What a table answers, by its row of words. -/
structure Answers (v : Vocabulary) (words : List String) : Prop where
  nodup : words.Nodup
  length_le : words.length ≤ 65534
  /-- A number stands for the word at its place. -/
  text? : ∀ number, v.text? number = if number = 0 then none else words[number.toNat - 1]?
  number?_eq_some_iff : ∀ text number, v.number? text = some number ↔ v.text? number = some text
  number? : ∀ text, v.number? text = if text ∈ words then some (numberIn words text) else none
  intern : ∀ text, (v.intern text).1 =
    if text ∈ words ∨ words.length < 65534 then some (numberIn words text) else none
  numbered : ∀ name text, numbered name (v.intern text).1 =
    if text ∈ words ∨ words.length < 65534 then .ok (numberIn words text)
    else .error (.tableFull name 65534)
  /-- Numbers are told apart, as there are fewer than sixteen bits can tell. -/
  toNat_numberIn : ∀ text, text ∈ words ∨ words.length < 65534 →
    (numberIn words text).toNat = words.idxOf text + 1
  /-- A word that is known or refused changes nothing. -/
  unchanged : ∀ text, text ∈ words ∨ words.length = 65534 → (v.intern text).2 = v

lemma Lists.answers (h : v.Lists words) : v.Answers words := by
  obtain ⟨hsound, rfl⟩ := h
  have hcapacity : capacity = 65534 := rfl
  have hle := hsound.length_le
  have hintern := fun text => (hsound.intern_eq text).1
  refine ⟨hsound.nodup, hle, text?_eq v, fun _ _ => hsound.number?_eq_some_iff, hsound.number?_eq,
    hintern, fun name text => ?_, fun text hroom => ?_, fun text hstays => ?_⟩
  · rw [hintern, hcapacity]
    split <;> rfl
  · have hidx : v.texts.toList.idxOf text ≤ v.texts.toList.length := List.idxOf_le_length
    have hsize : UInt16.size = 65536 := rfl
    rw [numberIn, UInt16.toNat_ofNat_of_lt' (by omega)]
  · exact (hsound.intern_eq text).2.2 (hstays.imp_right fun hfull => hfull.ge)

/-- **After any events, each table answers what its row of words says**: distinct words have the
numbers 1, 2, 3, … in the order in which they came, a table with 65534 words still knows them and
refuses any other word, and a number never changes. -/
theorem interning_tables (events : List Event) :
    List.Forall₂ Answers (tables events) (wordRows events) ∧
      (∀ (more : List Event) (table : Nat) (v : Vocabulary), (tables events)[table]? = some v →
        ∃ w, (tables (events ++ more))[table]? = some w ∧
          ∀ number text, v.text? number = some text → w.text? number = some text) ∧
      ∀ (name : VocabularyName) (texts : List String) (v : Vocabulary),
        seeded name texts = .ok v → v = ofList texts := by
  refine ⟨(tables_lists events).imp fun _ _ => Lists.answers, fun more table v hv => ?_,
    fun name texts v => eq_ofList_of_seeded⟩
  obtain ⟨w, hw, hgrows⟩ := tables_grow events more hv
  exact ⟨w, hw, fun number text => hgrows.text?⟩

end QuadBase.Dictionary.Vocabulary
