import QuadBase.Proofs.Dictionary.Foreign
import QuadBase.Proofs.Dictionary.Replies

/-!
# What tuning cannot change

Two dictionaries may differ in the size of their tables and in what their caches happen to keep, and
still be *alike*: they hold the same records and know the same words, so nobody can tell them apart
by their replies.  `TermDictionary.Alike` says so, and every request keeps it true.

The caches are the harder part, as an encoding that is answered from a cache neither looks at the
words nor searches the table.  `register` is the way without caches, and `encode_eq_register` says
that a cache spares the way but changes nothing.

* `Records.Alike.insert` — tables of different sizes admit the same keys.
* `Alike.encode`, `Alike.tryEncode`, `Alike.decode`, `Alike.kindOf` — one operation.
* `Alike.respond`, `Alike.respondAll` — a request, and a run of requests.
* `respondAll_tuned` — **dictionaries that are tuned differently reply alike**.
-/

namespace QuadBase.Dictionary

open QuadBase.Rdf

/-! ## Records in tables of different sizes -/

namespace Records

variable {r s : Records} {key : Key}

/-- The same records, in tables of whatever size. -/
structure Alike (r s : Records) : Prop where
  count : r.count = s.count
  primary : r.primary = s.primary
  secondary : r.secondary = s.secondary
  primaryLimit : r.primaryLimit = s.primaryLimit
  issued : ∀ code key, r.Issued code key ↔ s.Issued code key

lemma Alike.refl (r : Records) : r.Alike r :=
  ⟨rfl, rfl, rfl, rfl, fun _ _ => Iff.rfl⟩

lemma Alike.symm (h : r.Alike s) : s.Alike r :=
  ⟨h.count.symm, h.primary.symm, h.secondary.symm, h.primaryLimit.symm,
    fun code key => (h.issued code key).symm⟩

lemma create_alike (one two : Nat) {limit other : Nat}
    (h : min limit Code.maxOffset = min other Code.maxOffset) :
    (create one limit).Alike (create two other) :=
  ⟨rfl, rfl, rfl, h, fun _ _ =>
    iff_of_false (not_issued_create one limit) (not_issued_create two other)⟩

/-- Room is a matter of the arenas. -/
lemma Alike.prepare (h : r.Alike s) (key : Key) (inlineLimit : Nat) :
    r.prepare key inlineLimit = s.prepare key inlineLimit := by
  obtain ⟨_, _, primary, secondary, limit⟩ := r
  obtain ⟨_, _, _, _, _⟩ := s
  obtain ⟨-, rfl, rfl, rfl, -⟩ := h
  rfl

lemma Alike.write (h : r.Alike s) (draft : Draft) (mark : RecordMark) (position place : Nat)
    (hissued : ∀ code key, (r.write draft mark position).Issued code key ↔
      (s.write draft mark place).Issued code key) :
    (r.write draft mark position).Alike (s.write draft mark place) := by
  obtain ⟨slots, count, primary, secondary, limit⟩ := r
  obtain ⟨slots', count', primary', secondary', limit'⟩ := s
  obtain ⟨rfl, rfl, rfl, rfl, -⟩ := h
  obtain ⟨bytes, spilled⟩ := draft
  cases spilled <;> exact ⟨rfl, rfl, rfl, rfl, hissued⟩

variable [Text.Hasher]

/-- **Tables of different sizes admit the same keys**, and give them the same codes. -/
theorem Alike.insert (h : r.Alike s) (hr : r.Sound) (hs : s.Sound) (hkey : key.Normal)
    (inlineLimit : Nat) :
    (r.insert key inlineLimit).1 = (s.insert key inlineLimit).1 ∧
      (r.insert key inlineLimit).2.Alike (s.insert key inlineLimit).2 := by
  by_cases hknown : ∃ code, r.Issued code key
  · obtain ⟨code, hissued⟩ := hknown
    rw [hr.insert_of_issued hissued, hs.insert_of_issued ((h.issued code key).1 hissued)]
    exact ⟨rfl, h⟩
  · rw [not_exists] at hknown
    have hunknown : ∀ code, ¬ s.Issued code key := fun code =>
      mt (h.issued code key).2 (hknown code)
    have hsame := h.prepare key inlineLimit
    cases hprepare : r.prepare key inlineLimit with
    | error e =>
      rw [hr.insert_of_refused hknown hprepare, hs.insert_of_refused hunknown (hsame ▸ hprepare)]
      exact ⟨rfl, h⟩
    | ok prepared =>
      obtain ⟨draft, code⟩ := prepared
      obtain ⟨hdraft, hcode⟩ := prepare_eq_ok hprepare
      obtain ⟨-, hcode'⟩ := prepare_eq_ok (hsame ▸ hprepare)
      obtain ⟨position, hsearch, hinsert⟩ := hr.insert_of_prepared hknown hprepare
      obtain ⟨place, hsearch', hinsert'⟩ := hs.insert_of_prepared hunknown (hsame ▸ hprepare)
      obtain ⟨-, hissued⟩ :=
        hr.write hkey (hr.find?_eq_none_iff.2 hknown) hdraft hcode hsearch
      obtain ⟨-, hissued'⟩ :=
        hs.write hkey (hs.find?_eq_none_iff.2 hunknown) hdraft hcode' hsearch'
      rw [hinsert, hinsert']
      refine ⟨rfl, h.write draft _ position place ?_⟩
      intro other own
      rw [hissued, hissued', h.issued]

/-- The same codes are read. -/
lemma Alike.read (h : r.Alike s) (hr : r.Sound) (hs : s.Sound) (code : Code) :
    r.read code = s.read code := by
  cases hread : r.read code with
  | ok key =>
    have hissued := (h.issued code key).1 (hr.read_eq_ok_iff_issued.1 hread)
    exact (hs.read_eq_ok_iff_issued.2 hissued).symm
  | error e =>
    cases hother : s.read code with
    | ok key =>
      have hissued := (h.issued code key).2 (hs.read_eq_ok_iff_issued.1 hother)
      cases hread.symm.trans (hr.read_eq_ok_iff_issued.2 hissued)
    | error cause => rw [read_eq_error hread, read_eq_error hother]

end Records

namespace TermDictionary

variable [Text.Hasher] {d e f g : TermDictionary} {t : Term} {code : Code} {key : Key}

/-! ## Encoding without caches -/

/-- The code of a term that is not packed, without looking into the cache. -/
def register (d : TermDictionary) (t : Term) : Except DictionaryError Code × TermDictionary :=
  match d.internKey t with
  | (.error e, d) => (.error e, d)
  | (.ok key, d) => d.insertKey key

/-- A term that has a code is found again. -/
lemma Coded.register (h : d.Coded t code) (hd : d.Sound) : d.register t = (.ok code, d) := by
  obtain ⟨-, key, hkeyed, hissued⟩ := h
  simp only [TermDictionary.register, hkeyed.internKey hd.worded, hd.insertKey_of_issued hissued]

/-- **A cache spares the way, but changes nothing.** -/
theorem Sound.encode_eq_register (hd : d.Sound) (hplain : embed? t = none) :
    (d.encode t).answer = (d.register t).1 ∧
      (d.register t).2.OnlyCaches (d.encode t).dictionary := by
  rw [TermDictionary.encode, hplain]
  cases hcached : d.cachedCode? t with
  | some cached =>
    rw [(hd.coded_of_cachedCode? hcached).register hd]
    exact ⟨rfl, .refl d⟩
  | none =>
    rw [TermDictionary.register]
    obtain ⟨answer, e⟩ := d.internKey t
    cases answer with
    | error error => exact ⟨rfl, .refl e⟩
    | ok key =>
      cases hinsert : e.insertKey key with
      | mk answer f =>
        simp only [hinsert]
        cases answer with
        | error error => exact ⟨rfl, .refl f⟩
        | ok code => exact ⟨rfl, f.onlyCaches_rememberCode t code⟩

/-! ## Dictionaries that are alike -/

/-- The same records and the same words. -/
structure Alike (d e : TermDictionary) : Prop where
  left : d.Sound
  right : e.Sound
  inlineLimit : d.config.inlineLimit = e.config.inlineLimit
  namespaces : d.namespaces = e.namespaces
  languages : d.languages = e.languages
  datatypes : d.datatypes = e.datatypes
  records : d.records.Alike e.records

lemma Alike.refl (hd : d.Sound) : d.Alike d :=
  ⟨hd, hd, rfl, rfl, rfl, rfl, .refl _⟩

lemma Alike.symm (h : d.Alike e) : e.Alike d :=
  ⟨h.right, h.left, h.inlineLimit.symm, h.namespaces.symm, h.languages.symm, h.datatypes.symm,
    h.records.symm⟩

lemma create_alike {one two : Config} (hinline : one.inlineLimit = two.inlineLimit)
    (hlimit : min one.primaryLimit Code.maxOffset = min two.primaryLimit Code.maxOffset) :
    (create one).Alike (create two) :=
  ⟨create_sound one, create_sound two, hinline, rfl, rfl, rfl,
    Records.create_alike one.tableCapacity two.tableCapacity hlimit⟩

/-- Caches do not matter. -/
lemma Alike.onlyCaches (h : d.Alike e) (hd : d.OnlyCaches f) (he : e.OnlyCaches g) (hf : f.Sound)
    (hg : g.Sound) : f.Alike g := by
  obtain ⟨_, _, rfl⟩ := hd
  obtain ⟨_, _, rfl⟩ := he
  exact ⟨hf, hg, h.inlineLimit, h.namespaces, h.languages, h.datatypes, h.records⟩

lemma Alike.learns (h : d.Alike e) : d.Learns e :=
  ⟨h.namespaces ▸ .refl _, h.languages ▸ .refl _, h.datatypes ▸ .refl _⟩

/-- The same is known. -/
lemma Alike.coded_iff (h : d.Alike e) : d.Coded t code ↔ e.Coded t code :=
  ⟨fun hcoded => hcoded.mono h.learns h.right.worded (h.records.issued _ _).1,
    fun hcoded => hcoded.mono h.symm.learns h.left.worded (h.records.issued _ _).2⟩

lemma Alike.stats (h : d.Alike e) {calls other : Calls} (hcalls : calls.Alike other) :
    (d.stats calls).Alike (e.stats other) where
  namespaces := congrArg Vocabulary.size h.namespaces
  languages := congrArg Vocabulary.size h.languages
  datatypes := congrArg Vocabulary.size h.datatypes
  values := h.records.count
  primaryBytes := congrArg Arena.size h.records.primary
  secondaryBytes := congrArg Arena.size h.records.secondary
  calls := hcalls

/-! ## Encoding -/

/-- Which key a term gets is a matter of the words. -/
lemma internKey_congr (hnamespaces : d.namespaces = e.namespaces)
    (hlanguages : d.languages = e.languages) (hdatatypes : d.datatypes = e.datatypes) (t : Term) :
    (d.internKey t).1 = (e.internKey t).1 ∧
      (d.internKey t).2.namespaces = (e.internKey t).2.namespaces ∧
      (d.internKey t).2.languages = (e.internKey t).2.languages ∧
      (d.internKey t).2.datatypes = (e.internKey t).2.datatypes := by
  obtain ⟨_, namespaces, languages, datatypes, _, _, _⟩ := d
  obtain ⟨_, _, _, _, _, _, _⟩ := e
  subst hnamespaces hlanguages hdatatypes
  match t with
  | .resource (.iri iri) =>
    simp only [internKey]
    cases iri.split? with
    | none => exact ⟨rfl, rfl, rfl, rfl⟩
    | some parts => exact ⟨rfl, rfl, rfl, rfl⟩
  | .resource (.blank id) => exact ⟨rfl, rfl, rfl, rfl⟩
  | .literal (.simple label) => exact ⟨rfl, rfl, rfl, rfl⟩
  | .literal (.tagged label language) => exact ⟨rfl, rfl, rfl, rfl⟩
  | .literal (.typed label datatype) => exact ⟨rfl, rfl, rfl, rfl⟩

lemma Alike.internKey (h : d.Alike e) (t : Term) :
    (d.internKey t).1 = (e.internKey t).1 ∧ (d.internKey t).2.Alike (e.internKey t).2 := by
  obtain ⟨hanswer, hnamespaces, hlanguages, hdatatypes⟩ :=
    internKey_congr h.namespaces h.languages h.datatypes t
  cases hd : d.internKey t with
  | mk answer f =>
    cases he : e.internKey t with
    | mk other g =>
      rw [hd, he] at hanswer hnamespaces hlanguages hdatatypes
      obtain ⟨hworded, hlearns, hwords, -⟩ := internKey_spec h.left.worded hd
      obtain ⟨hworded', hlearns', hwords', -⟩ := internKey_spec h.right.worded he
      have hleft := (h.left.follows_of_onlyWords hworded hlearns hwords).sound
      have hright := (h.right.follows_of_onlyWords hworded' hlearns' hwords').sound
      obtain ⟨_, _, _, rfl⟩ := hwords
      obtain ⟨_, _, _, rfl⟩ := hwords'
      exact ⟨hanswer, hleft, hright, h.inlineLimit, hnamespaces, hlanguages, hdatatypes, h.records⟩

lemma Alike.insertKey (h : d.Alike e) (hplain : embed? t = none) (hkeyed : d.Keyed t key) :
    (d.insertKey key).1 = (e.insertKey key).1 ∧ (d.insertKey key).2.Alike (e.insertKey key).2 := by
  obtain ⟨hanswer, hrecords⟩ := h.records.insert h.left.records h.right.records hkeyed.normal
    d.config.inlineLimit
  have hleft := (h.left.insertKey hplain hkeyed rfl).1.sound
  have hright :=
    (h.right.insertKey hplain (hkeyed.mono h.learns h.right.worded) rfl).1.sound
  simp only [TermDictionary.insertKey] at *
  rw [← h.inlineLimit] at *
  exact ⟨hanswer, hleft, hright, h.inlineLimit, h.namespaces, h.languages, h.datatypes, hrecords⟩

/-- Terms get the same codes. -/
theorem Alike.register (h : d.Alike e) (hplain : embed? t = none) :
    (d.register t).1 = (e.register t).1 ∧ (d.register t).2.Alike (e.register t).2 := by
  obtain ⟨hanswer, halike⟩ := h.internKey t
  rw [TermDictionary.register, TermDictionary.register]
  cases hd : d.internKey t with
  | mk answer f =>
    cases he : e.internKey t with
    | mk other g =>
      obtain ⟨-, -, -, hkeyed⟩ := internKey_spec h.left.worded hd
      rw [hd, he] at hanswer halike
      obtain rfl : answer = other := hanswer
      cases answer with
      | error error => exact ⟨rfl, halike⟩
      | ok key => exact halike.insertKey hplain (hkeyed key rfl)

end TermDictionary

/-! ## Outcomes that are alike -/

/-- The same answer from dictionaries that are alike. -/
structure Outcome.Alike [Text.Hasher] {ρ : Type} (o p : Outcome ρ) : Prop where
  answer : o.answer = p.answer
  calls : o.calls.Alike p.calls
  dictionary : o.dictionary.Alike p.dictionary

namespace Outcome.Alike

variable [Text.Hasher] {α β : Type}

lemma map {o p : Outcome α} (h : o.Alike p) (f : α → β) : (o.map f).Alike (p.map f) :=
  ⟨congrArg f h.answer, h.calls, h.dictionary⟩

lemma andThen {o p : Outcome (Except DictionaryError α)}
    {next : α → TermDictionary → Outcome (Except DictionaryError β)} (h : o.Alike p)
    (hnext : ∀ (a : α) (d e : TermDictionary), d.Alike e → (next a d).Alike (next a e)) :
    (o.andThen next).Alike (p.andThen next) := by
  obtain ⟨answer, calls, d⟩ := o
  obtain ⟨other, more, e⟩ := p
  obtain rfl : answer = other := h.answer
  cases answer with
  | error error => exact ⟨rfl, h.calls, h.dictionary⟩
  | ok a =>
    have hrest := hnext a d e h.dictionary
    exact ⟨hrest.answer, h.calls.add hrest.calls, hrest.dictionary⟩

end Outcome.Alike

namespace TermDictionary

variable [Text.Hasher] {d e : TermDictionary} {t : Term} {code : Code}

lemma Alike.answer {ρ : Type} (h : d.Alike e) (answer : ρ) :
    (d.answer answer).Alike (e.answer answer) :=
  ⟨rfl, .refl _, h⟩

/-! ## One request -/

/-- **Encoding a term is alike.** -/
theorem Alike.encode (h : d.Alike e) (t : Term) : (d.encode t).Alike (e.encode t) := by
  have hsound := (h.left.encode t).1.sound
  have hsound' := (h.right.encode t).1.sound
  have hboth : (d.encode t).answer = (e.encode t).answer ∧
      (d.encode t).dictionary.Alike (e.encode t).dictionary := by
    cases hembed : embed? t with
    | some packed =>
      rw [TermDictionary.encode, TermDictionary.encode, hembed]
      exact ⟨rfl, h⟩
    | none =>
      obtain ⟨hanswer, hcaches⟩ := h.left.encode_eq_register hembed
      obtain ⟨hanswer', hcaches'⟩ := h.right.encode_eq_register hembed
      obtain ⟨hregister, halike⟩ := h.register hembed
      exact ⟨hanswer.trans (hregister.trans hanswer'.symm),
        halike.onlyCaches hcaches hcaches' hsound hsound'⟩
  refine ⟨hboth.1, (d.calls_encode t).trans ?_, hboth.2⟩
  rw [hboth.1]
  exact (e.calls_encode t).symm

/-- A term is found exactly if it has a code. -/
theorem Sound.tryEncode_eq_some_iff (hd : d.Sound) :
    (d.tryEncode t).answer = some code ↔ d.Represents t code := by
  refine ⟨?_, fun h => h.tryEncode hd⟩
  intro hanswer
  exact ((d.onlyCaches_tryEncode t).represents_iff hd).1 ((hd.tryEncode t).2 code hanswer)

lemma Alike.represents_iff (h : d.Alike e) : d.Represents t code ↔ e.Represents t code :=
  or_congr Iff.rfl h.coded_iff

/-- **Looking a term up is alike.** -/
theorem Alike.tryEncode (h : d.Alike e) (t : Term) : (d.tryEncode t).Alike (e.tryEncode t) := by
  have hanswer : (d.tryEncode t).answer = (e.tryEncode t).answer := by
    ext code
    rw [h.left.tryEncode_eq_some_iff, h.right.tryEncode_eq_some_iff, h.represents_iff]
  refine ⟨hanswer, (d.calls_tryEncode t).trans ?_,
    h.onlyCaches (d.onlyCaches_tryEncode t) (e.onlyCaches_tryEncode t)
      (h.left.tryEncode t).1.sound (h.right.tryEncode t).1.sound⟩
  rw [hanswer]
  exact (e.calls_tryEncode t).symm

/-- An embedded code is decoded in the same way by every dictionary. -/
lemma decode_embedded (hcode : code.isEmbedded = true) :
    (d.decode code).answer = (e.decode code).answer := by
  rw [answer_decode_of_embedded hcode, answer_decode_of_embedded hcode]

/-- **Decoding is alike.** -/
theorem Alike.decode (h : d.Alike e) (code : Code) : (d.decode code).Alike (e.decode code) := by
  have hanswer : (d.decode code).answer = (e.decode code).answer := by
    cases hcode : code.isEmbedded with
    | true => exact decode_embedded hcode
    | false =>
      rcases h.left.decode_cases hcode with ⟨t, hcoded, hok⟩ | ⟨hnone, herror⟩
      · rw [hok, Represents.decode (Or.inr (h.coded_iff.1 hcoded)) h.right]
      · rcases h.right.decode_cases hcode with ⟨t, hcoded, -⟩ | ⟨-, herror'⟩
        · exact absurd (h.coded_iff.2 hcoded) (hnone t)
        · rw [herror, herror']
  refine ⟨hanswer, (d.calls_decode code).trans ?_,
    h.onlyCaches (d.onlyCaches_decode code) (e.onlyCaches_decode code)
      (h.left.decode code).sound (h.right.decode code).sound⟩
  rw [hanswer]
  exact (e.calls_decode code).symm

/-- What has been decoded stays decoded. -/
lemma Follows.decode_eq_ok (h : d.Follows e) (hd : d.Sound) (hok : (d.decode code).answer = .ok t) :
    (e.decode code).answer = .ok t := by
  cases hcode : code.isEmbedded with
  | true => exact (decode_embedded hcode).trans hok
  | false =>
    rcases hd.decode_cases hcode with ⟨own, hcoded, hown⟩ | ⟨-, herror⟩
    · obtain rfl := Except.ok.inj (hown.symm.trans hok)
      exact Represents.decode (Or.inr (h.coded hcoded)) h.sound
    · cases herror.symm.trans hok

/-- Codes are of the same kind. -/
theorem Alike.kindOf (h : d.Alike e) (code : Code) : d.kindOf code = e.kindOf code := by
  rw [TermDictionary.kindOf, TermDictionary.kindOf,
    h.records.read h.left.records h.right.records]

lemma Alike.encodeGraph (h : d.Alike e) (graph : GraphName) :
    (d.encodeGraph graph).Alike (e.encodeGraph graph) := by
  cases graph with
  | defaultGraph => exact h.answer _
  | named r => exact h.encode (.resource r)

lemma Alike.decodeResource (h : d.Alike e) (position : Position) (code : Code) :
    (d.decodeResource position code).Alike (e.decodeResource position code) :=
  (h.decode code).andThen fun _ _ _ h => h.answer _

lemma Alike.decodeIri (h : d.Alike e) (position : Position) (code : Code) :
    (d.decodeIri position code).Alike (e.decodeIri position code) :=
  (h.decode code).andThen fun _ _ _ h => h.answer _

lemma Alike.decodeGraph (h : d.Alike e) (code : Code) :
    (d.decodeGraph code).Alike (e.decodeGraph code) := by
  rw [TermDictionary.decodeGraph, TermDictionary.decodeGraph]
  split
  · exact h.answer _
  · exact (h.decodeResource .graph code).andThen fun _ _ _ h => h.answer _

lemma Alike.encodeQuad (h : d.Alike e) (quad : Quad) :
    (d.encodeQuad quad).Alike (e.encodeQuad quad) := by
  refine (h.encode _).andThen ?_
  intro _ d e h
  refine (h.encode _).andThen ?_
  intro _ d e h
  refine (h.encode _).andThen ?_
  intro _ d e h
  exact (h.encodeGraph _).andThen fun _ _ _ h => h.answer _

lemma Alike.decodeQuad (h : d.Alike e) (codes : CodedQuad) :
    (d.decodeQuad codes).Alike (e.decodeQuad codes) := by
  refine (h.decodeResource _ _).andThen ?_
  intro _ d e h
  refine (h.decodeIri _ _).andThen ?_
  intro _ d e h
  refine (h.decode _).andThen ?_
  intro _ d e h
  exact (h.decodeGraph _).andThen fun _ _ _ h => h.answer _

lemma Alike.fork (h : d.Alike e) : d.fork.Alike e.fork :=
  h.onlyCaches d.onlyCaches_fork e.onlyCaches_fork h.left.follows_fork.sound
    h.right.follows_fork.sound

/-- **Every request is replied to alike.** -/
theorem Alike.respond (h : d.Alike e) (request : Request) :
    (d.respond request).Alike (e.respond request) := by
  cases request with
  | encode t => exact (h.encode t).map _
  | tryEncode t => exact (h.tryEncode t).map _
  | decode code => exact (h.decode code).map _
  | encodeGraph graph => exact (h.encodeGraph graph).map _
  | decodeGraph code => exact (h.decodeGraph code).map _
  | encodeQuad quad => exact (h.encodeQuad quad).map _
  | decodeQuad codes => exact (h.decodeQuad codes).map _
  | isLiteral code | isIri code | isBlankNode code | isResource code =>
    simp only [TermDictionary.respond, isLiteral, isIri, isBlankNode, isResource, h.kindOf]
    exact h.answer _
  | fork => exact h.fork.answer _

lemma Alike.serve (h : d.Alike e) (request : Request) :
    (d.serve request).Alike (e.serve request) := by
  rw [← dictionary_respond, ← dictionary_respond]
  exact (h.respond request).dictionary

/-! ## A run of requests -/

theorem Alike.respondAll (h : d.Alike e) (requests : List Request) :
    (d.respondAll requests).Alike (e.respondAll requests) := by
  induction requests generalizing d e with
  | nil => exact h.answer []
  | cons request requests ih =>
    have hfirst := h.respond request
    have hrest := ih hfirst.dictionary
    exact ⟨congrArg₂ List.cons hfirst.answer hrest.answer, hfirst.calls.add hrest.calls,
      hrest.dictionary⟩

/-- **Dictionaries that are tuned differently reply alike.**  The inline limit and the effective
primary limit decide what is written; the initial size of the table, the sizes of the caches and
their shards show neither in the replies to any run of requests nor in the sizes, but for the size
of the table and for which calls came from a cache. -/
theorem respondAll_tuned (one two : Config) (hinline : one.inlineLimit = two.inlineLimit)
    (hlimit : min one.primaryLimit Code.maxOffset = min two.primaryLimit Code.maxOffset)
    (requests : List Request) :
    let o := (create one).respondAll requests
    let p := (create two).respondAll requests
    o.answer = p.answer ∧ (o.dictionary.stats o.calls).Alike (p.dictionary.stats p.calls) := by
  intro o p
  have halike := (create_alike hinline hlimit).respondAll requests
  exact ⟨halike.answer, halike.dictionary.stats halike.calls⟩

end TermDictionary

/-- Without caches the second encoding is resolved from the records. -/
theorem TermDictionary.respondAll_tuned_bare :
    let bare : Config :=
      { tableCapacity := 1, encodeCacheCapacity := 0, decodeCacheCapacity := 0, cacheShards := 1,
        primaryLimit := Code.maxOffset + 1 }
    let requests := [.encode (.blank "a"), .encode (.blank "a"), .decode ⟨1⟩, .decode ⟨2⟩]
    let o := (create {}).respondAll requests
    let p := (create bare).respondAll requests
    o.answer = p.answer ∧ (o.dictionary.stats o.calls).Alike (p.dictionary.stats p.calls) ∧
      o.calls.encode = ⟨0, 1, 1⟩ ∧ p.calls.encode = ⟨0, 0, 2⟩ := by
  intro bare requests o p
  obtain ⟨hanswer, hstats⟩ := respondAll_tuned {} bare (by decide) (by decide) requests
  exact ⟨hanswer, hstats, by decide +kernel, by decide +kernel⟩

end QuadBase.Dictionary
