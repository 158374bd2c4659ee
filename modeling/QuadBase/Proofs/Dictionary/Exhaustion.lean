import QuadBase.Proofs.Dictionary.Refusals

/-!
# What a fatal refusal promises

A dictionary never gets more room.  So a term that was refused is refused again, however often and
whatever is asked for in between, and so is every other new term that needs at least what was
missing: a word of the vocabulary that is full, a record as long as the one that did not fit, a
value as long.

It does not close the dictionary.  The room that was too small for one record may do for a shorter
one, and a vocabulary that is full is of no concern to terms that need no word of it.

* `Fuller` — there is no more room than before, and `Sound.fuller_serveAll` — after any requests.
* `AsksAgain` — a term needs at least what was missing for another one.
* `encode_refused_again` — **a term that is refused is refused for good, and with it all that ask
  for as much**, and `encode_after_exhausted` — but not all others.
-/

namespace QuadBase.Dictionary

open QuadBase.Rdf

/-! ## Room only shrinks -/

/-- Rows that stay need their room. -/
lemma Arena.Extends.size_le {a b : Arena} (h : a.Extends b) (ha : a.Chunked) (hb : b.Chunked) :
    a.size ≤ b.size := by
  rw [← ha.length_toList, ← hb.length_toList]
  exact (h.toList_isPrefix ha hb).length_le

/-- A vocabulary that is full learns nothing. -/
lemma Vocabulary.Grows.number?_eq_none [Text.Hasher] {v w : Vocabulary} {text : String}
    (h : v.Grows w) (hv : v.Sound) (hw : w.Sound) (hfull : v.size = capacity)
    (hunknown : v.number? text = none) : w.number? text = none := by
  rw [hv.number?_eq_none_iff] at hunknown
  rw [hw.number?_eq_none_iff]
  intro number
  rw [h.full hw hfull.ge]
  exact hunknown number

namespace Records

variable {r s q : Records} {key other : Key} {inlineLimit : Nat} {e : DictionaryError}

/-- There is no more room in `s` than in `r`. -/
structure Fuller (r s : Records) : Prop where
  primary_le : r.primary.size ≤ s.primary.size
  secondary_le : r.secondary.size ≤ s.secondary.size
  limit_eq : s.primaryLimit = r.primaryLimit

lemma Fuller.refl (r : Records) : r.Fuller r :=
  ⟨le_refl _, le_refl _, rfl⟩

lemma Fuller.trans (h : r.Fuller s) (h' : s.Fuller q) : r.Fuller q :=
  ⟨h.primary_le.trans h'.primary_le, h.secondary_le.trans h'.secondary_le,
    h'.limit_eq.trans h.limit_eq⟩

/-- A longer record finds no room where a shorter one has found none. -/
lemma Fuller.exceedsPrimary (h : r.Fuller s) (hexceeds : r.ExceedsPrimary key inlineLimit)
    (hsize : key.recordSize inlineLimit ≤ other.recordSize inlineLimit) :
    s.ExceedsPrimary other inlineLimit := by
  have hprimary := h.primary_le
  simp only [ExceedsPrimary, nextOffset, Code.alignment, h.limit_eq] at *
  omega

/-- A longer value finds no room where a shorter one has found none. -/
lemma Fuller.exceedsSecondary (h : r.Fuller s) (hexceeds : r.ExceedsSecondary key inlineLimit)
    (houtside : other.isInlined inlineLimit = false)
    (hsize : key.value.utf8ByteSize ≤ other.value.utf8ByteSize) :
    s.ExceedsSecondary other inlineLimit := by
  have hsecondary := h.secondary_le
  refine ⟨houtside, hexceeds.2.imp ?_ ?_⟩
  · exact fun hlong => hlong.trans hsize
  · omega

variable [Text.Hasher]

lemma Sound.fuller_insert (h : r.Sound) (key : Key) (inlineLimit : Nat)
    (hs : (r.insert key inlineLimit).2.Sound) : r.Fuller (r.insert key inlineLimit).2 := by
  have hextends := h.extends_insert key inlineLimit
  refine ⟨hextends.primary.size_le h.laid.primary hs.laid.primary,
    hextends.secondary.size_le h.laid.secondary hs.laid.secondary, ?_⟩
  rcases h.insert_steps key inlineLimit with ⟨code, -, hinsert⟩ | ⟨error, -, -, hinsert⟩ |
    ⟨draft, code, position, -, -, -, hinsert⟩
  · rw [hinsert]
  · rw [hinsert]
  · rw [hinsert, primaryLimit_write]

end Records

namespace TermDictionary

variable [Text.Hasher] {d e f : TermDictionary} {t u : Term} {key : Key} {error : DictionaryError}

/-- There is no more room in `e` than in `d`, and `e` knows all words of `d`. -/
structure Fuller (d e : TermDictionary) : Prop where
  config_eq : e.config = d.config
  records : d.records.Fuller e.records
  learns : d.Learns e

omit [Text.Hasher] in
lemma Fuller.trans (h : d.Fuller e) (h' : e.Fuller f) : d.Fuller f :=
  ⟨h'.config_eq.trans h.config_eq, h.records.trans h'.records, h.learns.trans h'.learns⟩

omit [Text.Hasher] in
lemma OnlyCaches.fuller (h : d.OnlyCaches e) : d.Fuller e := by
  obtain ⟨_, _, rfl⟩ := h
  exact ⟨rfl, .refl _, .refl _, .refl _, .refl _⟩

/-- Encoding a term takes room. -/
lemma Sound.fuller_encode (hd : d.Sound) (t : Term) : d.Fuller (d.encode t).dictionary := by
  have hfollows := (hd.encode t).1
  refine ⟨hd.config_encode t, ?_, hfollows.learns⟩
  rcases hd.records_encode t with hsame | ⟨key, code, -, -, -, hinsert⟩
  · rw [hsame]
    exact .refl _
  · have hrecords := hd.records.fuller_insert key d.config.inlineLimit
    rw [hinsert] at hrecords
    exact hrecords hfollows.sound.records

/-- **No request makes room.** -/
theorem Sound.fuller_serveAll (hd : d.Sound) (requests : List Request) :
    d.Fuller (d.serveAll requests) := by
  refine hd.serveAll_run (P := fun e _ => d.Fuller e) ?_ ?_ [] (OnlyCaches.refl d).fuller requests
  · exact fun _ hsame he => he.trans hsame.fuller
  · exact fun hsound he t => he.trans (hsound.fuller_encode t)

/-! ## Asking again -/

/-- When `d` had refused `t` with this error, `u` needs at least what was missing then. -/
inductive AsksAgain (d later : TermDictionary) (t u : Term) : DictionaryError → Prop where
  /-- A new word of the vocabulary that was full. -/
  | word {name : VocabularyName} {text : String} (hword : wordOf? u = some (name, text))
      (hunknown : (later.vocabulary name).number? text = none) :
      AsksAgain d later t u (.tableFull name Vocabulary.capacity)
  /-- A record that is as long as the one that did not fit. -/
  | record {limit : Nat} (hsize : (d.outline t).recordSize d.config.inlineLimit ≤
        (later.outline u).recordSize d.config.inlineLimit) :
      AsksAgain d later t u (.exhausted .primary limit)
  /-- A value that is kept outside as well, and is as long as the one that did not fit. -/
  | value {limit : Nat}
      (houtside : (later.outline u).isInlined d.config.inlineLimit = false)
      (hsize : (d.outline t).value.utf8ByteSize ≤ (later.outline u).value.utf8ByteSize) :
      AsksAgain d later t u (.exhausted .secondary limit)

omit [Text.Hasher] in
lemma Learns.vocabulary (h : d.Learns e) (name : VocabularyName) :
    (d.vocabulary name).Grows (e.vocabulary name) := by
  cases name with
  | namespaces => exact h.namespaces
  | languages => exact h.languages
  | datatypes => exact h.datatypes

/-- **Who asks again is refused again.** -/
theorem Fuller.refused (h : d.Fuller e) (he : e.Worded) (hrefusal : d.Refusal t error)
    (hasks : AsksAgain d e t u error) : ∃ error, e.Refusal u error := by
  rw [exists_refusal_iff, h.config_eq]
  cases hrefusal with
  | @tableFull name full =>
    obtain ⟨hname, -, -, -, hfull⟩ := full
    cases hasks with
    | @word _ text hword hunknown =>
      have hgrown := (h.learns.vocabulary name).size_le
      have hsize := (he.vocabulary name).size_le
      exact Or.inl ⟨name, hname, text, hword, hunknown, by omega⟩
  | exhausted _ refusal =>
    refine Or.inr ?_
    cases refusal with
    | long outside long =>
      cases hasks with
      | value houtside hsize =>
        exact Or.inl (h.records.exceedsSecondary ⟨outside, Or.inl long⟩ houtside hsize)
    | primary _ exceeds =>
      cases hasks with
      | record hsize => exact Or.inr (h.records.exceedsPrimary exceeds hsize)
    | secondary _ exceeds _ =>
      cases hasks with
      | value houtside hsize =>
        exact Or.inl (h.records.exceedsSecondary exceeds houtside hsize)

/-- All refusals are fatal. -/
lemma Refusal.isFatal (h : d.Refusal t error) : error.isFatal = true := by
  cases h with
  | tableFull _ => rfl
  | exhausted _ refusal => cases refusal <;> rfl

/-! ## The refused term itself -/

/-- What a term is kept under is settled when it has been taken apart. -/
lemma Keyed.outline_eq (h : d.Keyed t key) (hd : d.Worded) :
    (d.outline t).kind = key.kind ∧ (d.outline t).value = key.value := by
  have hintern := h.internKey hd
  rcases hd.internKey_cases t with ⟨name, -, herror⟩ | ⟨-, own, hok, hkind, hvalue⟩
  · rw [hintern] at herror
    cases herror
  · rw [hintern] at hok
    obtain rfl := Except.ok.inj hok
    exact ⟨hkind.symm, hvalue.symm⟩

/-- A term that was refused for want of room in an arena has been taken apart before. -/
lemma Sound.keyed_of_refused (hd : d.Sound) (h : (d.encode t).answer = .error error)
    (hroom : ∀ name, ¬ d.TableFull t name) : ∃ key, (d.encode t).dictionary.Keyed t key ∧
      key.kind = (d.outline t).kind ∧ key.value = (d.outline t).value := by
  obtain ⟨hplain, hfailed⟩ := encode_of_error h
  rcases hd.worded.internKey_cases t with ⟨name, hfull, -⟩ | ⟨-, key, hok, hkind, hvalue⟩
  · exact absurd hfull (hroom name)
  · rcases hfailed with ⟨e, hintern, -⟩ | ⟨own, e, f, hintern, hinsert, hencode⟩
    · rw [hintern] at hok
      cases hok
    · rw [hintern] at hok
      obtain rfl : own = key := Except.ok.inj hok
      obtain ⟨he, hlearns, honly, hkeyed⟩ := internKey_spec hd.worded hintern
      have hsound := (hd.follows_of_onlyWords he hlearns honly).sound
      have hfollows := (hsound.insertKey hplain (hkeyed own rfl) hinsert).1
      rw [hencode]
      exact ⟨own, (hkeyed own rfl).mono hfollows.learns hfollows.sound.worded, hkind, hvalue⟩

/-- **A term that was refused asks for as much ever after.** -/
lemma Sound.asksAgain_of_refused (hd : d.Sound) (h : (d.encode t).answer = .error error)
    (hrefusal : d.Refusal t error) (hlearns : (d.encode t).dictionary.Learns e) (he : e.Worded) :
    AsksAgain d e t t error := by
  -- Words that were new have been learned by the refused call, so the term is taken apart now as it
  -- was then.
  have hsame : (∀ name, ¬ d.TableFull t name) →
      (e.outline t).kind = (d.outline t).kind ∧ (e.outline t).value = (d.outline t).value := by
    intro hroom
    obtain ⟨key, hkeyed, hkind, hvalue⟩ := hd.keyed_of_refused h hroom
    obtain ⟨hkind', hvalue'⟩ := (hkeyed.mono hlearns he).outline_eq he
    exact ⟨hkind'.trans hkind, hvalue'.trans hvalue⟩
  cases hrefusal with
  | @tableFull name full =>
    obtain ⟨-, text, hword, hunknown, hfull⟩ := full
    have hgrows := ((hd.encode t).1.learns.trans hlearns).vocabulary name
    exact .word hword (hgrows.number?_eq_none (hd.worded.vocabulary name) (he.vocabulary name)
      hfull hunknown)
  | exhausted room refusal =>
    obtain ⟨hkind, hvalue⟩ := hsame room
    have hsize : (d.outline t).recordSize d.config.inlineLimit =
        (e.outline t).recordSize d.config.inlineLimit := by
      rw [Key.recordSize, Key.recordSize, Key.isInlined, Key.isInlined, hkind, hvalue]
    have hinlined : (e.outline t).isInlined d.config.inlineLimit =
        (d.outline t).isInlined d.config.inlineLimit := by
      rw [Key.isInlined, Key.isInlined, hvalue]
    cases refusal with
    | long outside _ => exact .value (hinlined.trans outside) (by rw [hvalue])
    | primary _ _ => exact .record hsize.le
    | secondary _ exceeds _ => exact .value (hinlined.trans exceeds.1) (by rw [hvalue])

/-- The first byte of the primary arena is taken, and its limit is one of offsets. -/
structure Bounded (d : TermDictionary) : Prop where
  pos : 1 ≤ d.records.primary.size
  limit : d.records.primaryLimit ≤ Code.maxOffset

omit [Text.Hasher] in
lemma Fuller.bounded (h : d.Fuller e) (hd : d.Bounded) : e.Bounded :=
  ⟨hd.pos.trans h.records.primary_le, h.records.limit_eq.le.trans hd.limit⟩

lemma bounded_serveAll (config : Config) (requests : List Request) :
    ((create config).serveAll requests).Bounded := by
  obtain ⟨-, entries, -, hlayout⟩ := tiled_serveAll config requests
  exact ⟨hlayout.primary_size_pos, hlayout.limit.le.trans (Nat.min_le_right _ _)⟩

/-- A new term that asks again is not encoded. -/
lemma Sound.encode_asksAgain (he : e.Sound) (hbounded : e.Bounded) (hfuller : d.Fuller e)
    (hrefusal : d.Refusal t error) (hasks : AsksAgain d e t u error) (hplain : embed? u = none)
    (hnew : ∀ code, ¬ e.Coded u code) :
    ∃ error, (e.encode u).answer = .error error ∧ error.isFatal = true := by
  obtain ⟨own, hown⟩ := hfuller.refused he.worded hrefusal hasks
  exact ⟨own, (he.encode_eq_error_iff hbounded.pos hbounded.limit).2 ⟨hplain, hnew, hown⟩,
    hown.isFatal⟩

/-- Encoding a term gives a code to no other term. -/
lemma Sound.coded_of_encode (he : e.Sound) {code : Code}
    (h : (e.encode u).dictionary.Coded t code) :
    e.Coded t code ∨ (t = u ∧ (e.encode u).answer = .ok code) := by
  obtain ⟨-, key, -, hissued⟩ := id h
  exact (he.coded_encode (isEmbedded_eq_false_of_isIndexed (isIndexed_of_issued hissued))).1 h

/-- A term that was refused gets no code by what follows. -/
theorem Sound.not_coded_serveAll (hd : d.Sound) (hbounded : d.Bounded)
    (h : (d.encode t).answer = .error error) (requests : List Request) (code : Code) :
    ¬ ((d.encode t).dictionary.serveAll requests).Coded t code := by
  obtain ⟨hplain, hnew, hrefusal⟩ := (hd.encode_eq_error_iff hbounded.pos hbounded.limit).1 h
  have hfirst := hd.fuller_encode t
  -- As long as the term has no code it is refused, for which the room that was left then counts.
  refine (hd.encode t).1.sound.serveAll_run
    (P := fun e _ => (d.encode t).dictionary.Fuller e ∧ ∀ code, ¬ e.Coded t code) ?_ ?_ []
    ⟨(OnlyCaches.refl _).fuller, ?_⟩ requests |>.2 code
  · rintro e f - he hsame ⟨hfuller, hkept⟩
    exact ⟨hfuller.trans hsame.fuller, fun code hcode => hkept code ((hsame.coded_iff he).1 hcode)⟩
  · rintro e - he ⟨hfuller, hkept⟩ u
    refine ⟨hfuller.trans (he.fuller_encode u), fun code hcode => ?_⟩
    rcases he.coded_of_encode hcode with hold | ⟨rfl, hok⟩
    · exact hkept code hold
    · have hall := hfirst.trans hfuller
      obtain ⟨own, herror, -⟩ := he.encode_asksAgain (hall.bounded hbounded) hall hrefusal
        (hd.asksAgain_of_refused h hrefusal hfuller.learns he.worded) hplain hkept
      cases hok.symm.trans herror
  · intro code hcode
    rcases hd.coded_of_encode hcode with hold | ⟨-, hok⟩
    · exact hnew code hold
    · cases hok.symm.trans h

/-- **What is refused is refused for good.**  If a dictionary refuses a term, then the error is
fatal, and whatever is asked for afterwards, the dictionary keeps refusing this term and every new
one that needs at least what was missing, each time with a fatal error. -/
theorem encode_refused_again (config : Config) (before after : List Request) (t : Term)
    (error : DictionaryError) :
    let d := (create config).serveAll before
    let later := (create config).serveAll (before ++ .encode t :: after)
    let issued := (create config).issuesAll (before ++ .encode t :: after)
    (d.encode t).answer = .error error →
    error.isFatal = true ∧
      (∃ again, (later.encode t).answer = .error again ∧ again.isFatal = true) ∧
      ∀ u, embed? u = none → (∀ code, (u, code) ∉ issued) → AsksAgain d later t u error →
        ∃ again, (later.encode u).answer = .error again ∧ again.isFatal = true := by
  intro d later issued h
  have hd : d.Sound := ((create_sound config).serveAll before).sound
  have hbounded : d.Bounded := bounded_serveAll config before
  have hlater : later = (d.encode t).dictionary.serveAll after :=
    serveAll_append _ before (.encode t :: after)
  have hsound := (hd.encode t).1.sound
  have hrest := hsound.fuller_serveAll after
  have he := (hsound.serveAll after).sound
  have hnever := hd.not_coded_serveAll hbounded h after
  rw [← hlater] at hrest he hnever
  have hfuller := (hd.fuller_encode t).trans hrest
  obtain ⟨hplain, -, hrefusal⟩ := (hd.encode_eq_error_iff hbounded.pos hbounded.limit).1 h
  refine ⟨hrefusal.isFatal, ?_, ?_⟩
  · exact he.encode_asksAgain (hfuller.bounded hbounded) hfuller hrefusal
      (hd.asksAgain_of_refused h hrefusal hrest.learns he.worded) hplain hnever
  · intro u hu hnew hasks
    refine he.encode_asksAgain (hfuller.bounded hbounded) hfuller hrefusal hasks hu ?_
    intro code hcoded
    have hrepresents : later.Represents u code := Or.inr hcoded
    rw [represents_iff_issued config, hu] at hrepresents
    exact hnew code (hrepresents.resolve_left (by simp))

end TermDictionary

/-- The arena has room for twelve short identifiers and three bytes more.  What has been refused is
refused again, though a shorter identifier has been taken in between, and so is another one of the
same length. -/
theorem TermDictionary.encode_refused_again_cramped :
    let before := ["b0", "b1", "b2", "b3", "b4", "b5", "b6", "b7", "b8", "b9", "b10", "b11"].map
      fun id => Request.encode (.blank id)
    let later := (create { primaryLimit := 64 }).serveAll
      (before ++ .encode (.blank "b12") :: [.encode (.blank "x")])
    (∃ again, (later.encode (.blank "b12")).answer = .error again ∧ again.isFatal = true) ∧
      ∃ again, (later.encode (.blank "b13")).answer = .error again ∧ again.isFatal = true := by
  intro before later
  have hrefused : (((create { primaryLimit := 64 }).serveAll before).encode (.blank "b12")).answer =
      .error (.exhausted .primary 64) := by decide +kernel
  obtain ⟨-, hsame, hothers⟩ := encode_refused_again { primaryLimit := 64 } before
    [.encode (.blank "x")] (.blank "b12") (.exhausted .primary 64) hrefused
  refine ⟨hsame, hothers (.blank "b13") rfl ?_ (.record (by decide +kernel))⟩
  have hissued : ∀ pair ∈ (create { primaryLimit := 64 }).issuesAll
      (before ++ .encode (.blank "b12") :: [.encode (.blank "x")]),
      pair.1 ≠ .blank "b13" := by decide +kernel
  exact fun code hmem => hissued _ hmem rfl

/-- **A dictionary that has refused a term is not closed.**  In the same arena a shorter identifier,
which has no code yet, gets one after the fatal refusal of a longer one. -/
theorem TermDictionary.encode_after_exhausted :
    let before := ["b0", "b1", "b2", "b3", "b4", "b5", "b6", "b7", "b8", "b9", "b10", "b11"].map
      fun id => Request.encode (.blank id)
    let d := (create { primaryLimit := 64 }).serveAll before
    let later := (d.encode (.blank "b12")).dictionary
    (d.encode (.blank "b12")).answer = .error (.exhausted .primary 64) ∧
      (DictionaryError.exhausted .primary 64).isFatal = true ∧
      embed? (.blank "x") = none ∧ (later.tryEncode (.blank "x")).answer = none ∧
      (later.encode (.blank "x")).answer = .ok ⟨15⟩ := by
  decide +kernel

end QuadBase.Dictionary
