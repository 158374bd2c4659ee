import QuadBase.Proofs.Code.Packing
import QuadBase.Proofs.Dictionary.Cache
import QuadBase.Proofs.Dictionary.Keys
import QuadBase.Proofs.Dictionary.Records

/-!
# Terms and their codes

A term is represented by the code that its value is packed into, or else by the code that was issued
for its key (`TermDictionary.Represents`).  `TermDictionary.Sound` ties the layers together: the
vocabularies, the records, and the two caches, which hold nothing but what the records say.

For each operation there are two theorems.  One says that the dictionary it leaves is sound and
knows all that was known before (`Follows`), and what the answer means.  The other says what the
answer is for a term or a code that is known.
-/

namespace QuadBase.Dictionary

open QuadBase.Rdf

/-! ## Embedded codes -/

/-- **An embedded code gives back its term.** -/
theorem unembed?_of_embed? {t : Term} {code : Code} (h : embed? t = some code) :
    code.isEmbedded = true ∧ unembed? code = some t := by
  cases t with
  | resource r => cases h
  | literal l =>
    rw [embed?] at h
    split at h
    next => cases h
    next hplain =>
      obtain ⟨⟨number, family⟩, hnumber, h⟩ := Option.bind_eq_some_iff.1 h
      obtain ⟨payload, hpayload, rfl⟩ := Option.map_eq_some_iff.1 h
      obtain ⟨hpos, hspace, datatype, hdatatype, hiri, rfl⟩ :=
        Code.packedDatatype?_of_packedNumber? hnumber
      have hlt : payload < Code.payloadSpace :=
        Code.Family.payload?_lt (Code.Family.pack?_eq_some_iff.1 hpayload).2.1
      have hunpack := Code.Family.unpack?_of_pack? hpayload
      have hliteral : Literal.ofDatatype l.label l.datatype = l := by
        cases l with
        | simple label => exact dif_pos rfl
        | tagged label language => exact absurd rfl hplain
        | typed label datatype => exact dif_neg datatype.ne_string
      constructor
      · rw [Code.isEmbedded, Code.datatypeNumber_embedded hspace, Code.toNat_embedded,
          Bool.and_eq_true, decide_eq_true_eq, decide_eq_true_eq]
        omega
      · rw [unembed?, Code.datatypeNumber_embedded hspace, hdatatype, Option.bind_some,
          Code.payload_embedded _ hlt, hunpack, Option.map_some, String.ofList_toList, hiri,
          hliteral]

namespace TermDictionary

variable [Text.Hasher] {d e f : TermDictionary} {t other : Term} {code found : Code} {key : Key}

/-! ## The invariant -/

omit [Text.Hasher] in
/-- A code has been issued for the key of a term that is not packed. -/
def Coded (d : TermDictionary) (t : Term) (code : Code) : Prop :=
  embed? t = none ∧ ∃ key, d.Keyed t key ∧ d.records.Issued code key

/-- The code stands for the term. -/
def Represents (d : TermDictionary) (t : Term) (code : Code) : Prop :=
  embed? t = some code ∨ d.Coded t code

/-- All layers of a dictionary are in order, and say the same. -/
structure Sound (d : TermDictionary) : Prop where
  worded : d.Worded
  records : d.records.Sound
  /-- Every record belongs to a term. -/
  keyed : ∀ {code key}, d.records.Issued code key → ∃ t, embed? t = none ∧ d.Keyed t key
  encodeCache : ∀ {t code}, d.encodeCache.Keeps t code → d.Coded t code
  decodeCache : ∀ {t code}, d.decodeCache.Keeps code t → d.Coded t code

/-- A term has one code. -/
lemma Sound.code_unique (hd : d.Sound) (h : d.Coded t code) (h' : d.Coded t found) :
    code = found := by
  obtain ⟨-, key, hkeyed, hissued⟩ := h
  obtain ⟨-, key', hkeyed', hissued'⟩ := h'
  obtain rfl := hkeyed.key_unique hkeyed' hd.worded
  exact hd.records.injective hissued hissued'

/-- A code has one term. -/
lemma Sound.term_unique (hd : d.Sound) (h : d.Coded t code) (h' : d.Coded other code) :
    t = other := by
  obtain ⟨-, key, hkeyed, hissued⟩ := h
  obtain ⟨-, key', hkeyed', hissued'⟩ := h'
  obtain rfl := hissued.key_unique hissued'
  exact hkeyed.term_unique hkeyed' hd.worded

lemma initialDatatypeVocabulary_sound : initialDatatypeVocabulary.Sound :=
  Vocabulary.ofList_sound initialDatatypes

lemma create_sound (config : Config) : (create config).Sound where
  worded := by
    refine ⟨Vocabulary.empty_sound, Vocabulary.empty_sound, ?_⟩
    -- `exact` alone would evaluate the vocabulary
    simp only [create]
    exact initialDatatypeVocabulary_sound
  records := Records.create_sound config.tableCapacity config.primaryLimit
  keyed h := absurd h (Records.not_issued_create config.tableCapacity config.primaryLimit)
  encodeCache h := absurd h (Cache.not_keeps_create config.encodeCacheCapacity config.cacheShards)
  decodeCache h := absurd h (Cache.not_keeps_create config.decodeCacheCapacity config.cacheShards)

/-! ## Growing -/

/-- `e` is sound and knows all that `d` knows. -/
structure Follows (d e : TermDictionary) : Prop where
  sound : e.Sound
  learns : d.Learns e
  issued : ∀ {code key}, d.records.Issued code key → e.records.Issued code key

lemma Sound.follows (hd : d.Sound) : d.Follows d :=
  ⟨hd, .refl d, fun h => h⟩

lemma Follows.trans (h : d.Follows e) (h' : e.Follows f) : d.Follows f :=
  ⟨h'.sound, h.learns.trans h'.learns, fun hissued => h'.issued (h.issued hissued)⟩

lemma Coded.mono (h : d.Coded t code) (hlearns : d.Learns e) (he : e.Worded)
    (hissued : ∀ {code key}, d.records.Issued code key → e.records.Issued code key) :
    e.Coded t code := by
  obtain ⟨hplain, key, hkeyed, hcode⟩ := h
  exact ⟨hplain, key, hkeyed.mono hlearns he, hissued hcode⟩

/-- **What a code stands for never changes.** -/
theorem Follows.represents (h : d.Follows e) (hcode : d.Represents t code) :
    e.Represents t code :=
  hcode.imp_right fun hcoded => hcoded.mono h.learns h.sound.worded h.issued

/-- What a change has to show: the words are sound, every record is old or belongs to a term, and so
does every cache entry. -/
lemma Sound.follows_of (hd : d.Sound) (he : e.Worded) (hlearns : d.Learns e)
    (hrecords : e.records.Sound)
    (hissued : ∀ {code key}, d.records.Issued code key → e.records.Issued code key)
    (hkeyed : ∀ {code key}, e.records.Issued code key →
      d.records.Issued code key ∨ ∃ t, embed? t = none ∧ e.Keyed t key)
    (hencode : ∀ {t code}, e.encodeCache.Keeps t code →
      d.encodeCache.Keeps t code ∨ e.Coded t code)
    (hdecode : ∀ {t code}, e.decodeCache.Keeps code t →
      d.decodeCache.Keeps code t ∨ e.Coded t code) : d.Follows e := by
  refine ⟨⟨he, hrecords, ?_, ?_, ?_⟩, hlearns, hissued⟩
  · intro code key h
    rcases hkeyed h with hold | hnew
    · obtain ⟨t, hplain, hkey⟩ := hd.keyed hold
      exact ⟨t, hplain, hkey.mono hlearns he⟩
    · exact hnew
  · intro t code h
    rcases hencode h with hold | hnew
    · exact (hd.encodeCache hold).mono hlearns he hissued
    · exact hnew
  · intro t code h
    rcases hdecode h with hold | hnew
    · exact (hd.decodeCache hold).mono hlearns he hissued
    · exact hnew

/-- New words leave everything else as it is. -/
lemma Sound.follows_of_onlyWords (hd : d.Sound) (he : e.Worded) (hlearns : d.Learns e)
    (h : d.OnlyWords e) : d.Follows e := by
  obtain ⟨namespaces, languages, datatypes, rfl⟩ := h
  exact hd.follows_of he hlearns hd.records (fun h => h) Or.inl Or.inl Or.inl

/-- Only what is right goes into the caches. -/
lemma Sound.follows_rememberCode (hd : d.Sound) (h : d.Coded t code) :
    d.Follows (d.rememberCode t code) := by
  have hlearns : d.Learns (d.rememberCode t code) := ⟨.refl _, .refl _, .refl _⟩
  have hworded : (d.rememberCode t code).Worded :=
    ⟨hd.worded.namespaces, hd.worded.languages, hd.worded.datatypes⟩
  refine hd.follows_of hworded hlearns hd.records (fun h => h) Or.inl ?_ Or.inl
  intro term other hkeeps
  rcases Cache.keeps_of_insert hkeeps with ⟨rfl, rfl⟩ | hold
  · exact Or.inr (h.mono hlearns hworded fun h => h)
  · exact Or.inl hold

lemma Sound.follows_rememberTerm (hd : d.Sound) (h : d.Coded t code) :
    d.Follows (d.rememberTerm code t) := by
  have hlearns : d.Learns (d.rememberTerm code t) := ⟨.refl _, .refl _, .refl _⟩
  have hworded : (d.rememberTerm code t).Worded :=
    ⟨hd.worded.namespaces, hd.worded.languages, hd.worded.datatypes⟩
  refine hd.follows_of hworded hlearns hd.records (fun h => h) Or.inl Or.inl ?_
  intro term other hkeeps
  rcases Cache.keeps_of_insert hkeeps with ⟨rfl, rfl⟩ | hold
  · exact Or.inr (h.mono hlearns hworded fun h => h)
  · exact Or.inl hold

/-- A fork forgets nothing but its caches. -/
theorem Sound.follows_fork (hd : d.Sound) : d.Follows d.fork :=
  hd.follows_of ⟨hd.worded.namespaces, hd.worded.languages, hd.worded.datatypes⟩
    ⟨.refl _, .refl _, .refl _⟩ hd.records (fun h => h) Or.inl
    (fun h => absurd h (Cache.not_keeps_create _ _))
    (fun h => absurd h (Cache.not_keeps_create _ _))

/-! ## Encoding -/

/-- A settled key gets a code, or there is no room. -/
lemma Sound.insertKey (hd : d.Sound) (hplain : embed? t = none) (hkeyed : d.Keyed t key)
    {answer : Except DictionaryError Code} (heq : d.insertKey key = (answer, e)) :
    d.Follows e ∧ ∀ code, answer = .ok code → e.Coded t code := by
  rcases hd.records.insert_cases hkeyed.normal d.config.inlineLimit with
    ⟨code, hissued, hinsert⟩ | ⟨error, -, hinsert⟩ | ⟨code, records, -, hinsert, hsound, hissued⟩
  · simp only [TermDictionary.insertKey, hinsert] at heq
    obtain ⟨rfl, rfl⟩ := Prod.mk.inj heq
    refine ⟨hd.follows, ?_⟩
    intro found hfound
    obtain rfl := Except.ok.inj hfound
    exact ⟨hplain, key, hkeyed, hissued⟩
  · simp only [TermDictionary.insertKey, hinsert] at heq
    obtain ⟨rfl, rfl⟩ := Prod.mk.inj heq
    exact ⟨hd.follows, fun found hfound => by cases hfound⟩
  · simp only [TermDictionary.insertKey, hinsert] at heq
    obtain ⟨rfl, rfl⟩ := Prod.mk.inj heq
    have hlearns : d.Learns { d with records } := ⟨.refl _, .refl _, .refl _⟩
    have hworded : Worded { d with records } :=
      ⟨hd.worded.namespaces, hd.worded.languages, hd.worded.datatypes⟩
    have hkeyed' := hkeyed.mono hlearns hworded
    refine ⟨hd.follows_of hworded hlearns hsound (fun hold => (hissued _ _).2 (Or.inr hold)) ?_
      Or.inl Or.inl, ?_⟩
    · intro other own hother
      rcases (hissued other own).1 hother with ⟨rfl, rfl⟩ | hold
      · exact Or.inr ⟨t, hplain, hkeyed'⟩
      · exact Or.inl hold
    · intro found hfound
      obtain rfl := Except.ok.inj hfound
      exact ⟨hplain, key, hkeyed', (hissued _ _).2 (Or.inl ⟨rfl, rfl⟩)⟩

/-- A key that has a code keeps it. -/
lemma Sound.insertKey_of_issued (hd : d.Sound) (hissued : d.records.Issued code key) :
    d.insertKey key = (.ok code, d) := by
  simp only [TermDictionary.insertKey, hd.records.insert_of_issued hissued]

/-- What the encode cache knows is right. -/
lemma Sound.coded_of_cachedCode? (hd : d.Sound) (h : d.cachedCode? t = some code) :
    d.Coded t code := by
  obtain ⟨own, hsame, hkeeps⟩ := Cache.keeps_of_find? h
  obtain rfl := eq_of_beq hsame
  exact hd.encodeCache hkeeps

/-- **Encoding goes on from where the dictionary was**, and a code that it answers stands for the
term. -/
theorem Sound.encode (hd : d.Sound) (t : Term) :
    d.Follows (d.encode t).dictionary ∧
      ∀ code, (d.encode t).answer = .ok code → (d.encode t).dictionary.Represents t code := by
  rw [TermDictionary.encode]
  cases hembed : embed? t with
  | some packed =>
    refine ⟨hd.follows, fun code hcode => Or.inl ?_⟩
    rw [hembed, Except.ok.inj hcode]
  | none =>
    cases hcached : d.cachedCode? t with
    | some cached =>
      refine ⟨hd.follows, fun code hcode => Or.inr ?_⟩
      rw [← Except.ok.inj hcode]
      exact hd.coded_of_cachedCode? hcached
    | none =>
      cases hintern : d.internKey t with
      | mk answer e =>
        obtain ⟨hworded, hlearns, hwords, hkeyed⟩ := internKey_spec hd.worded hintern
        have he := hd.follows_of_onlyWords hworded hlearns hwords
        cases answer with
        | error error => exact ⟨he, fun code hcode => by cases hcode⟩
        | ok key =>
          cases hinsert : e.insertKey key with
          | mk answer f =>
            obtain ⟨hf, hcoded⟩ := he.sound.insertKey hembed (hkeyed key rfl) hinsert
            simp only [hinsert]
            cases answer with
            | error error => exact ⟨he.trans hf, fun code hcode => by cases hcode⟩
            | ok code =>
              have hremember := hf.sound.follows_rememberCode (hcoded code rfl)
              refine ⟨(he.trans hf).trans hremember, ?_⟩
              intro found hfound
              obtain rfl := Except.ok.inj hfound
              exact hremember.represents (Or.inr (hcoded code rfl))

/-- **A term that has a code gets it again.** -/
theorem Represents.encode (h : d.Represents t code) (hd : d.Sound) :
    (d.encode t).answer = .ok code := by
  rw [TermDictionary.encode]
  rcases h with hembed | hcoded
  · rw [hembed]
  · rw [hcoded.1]
    cases hcached : d.cachedCode? t with
    | some cached =>
      exact congrArg Except.ok (hd.code_unique (hd.coded_of_cachedCode? hcached) hcoded)
    | none =>
      obtain ⟨-, key, hkeyed, hissued⟩ := hcoded
      simp only [hkeyed.internKey hd.worded, hd.insertKey_of_issued hissued]

/-- **Looking a term up goes on from where the dictionary was**, and a code that it answers stands
for the term. -/
theorem Sound.tryEncode (hd : d.Sound) (t : Term) :
    d.Follows (d.tryEncode t).dictionary ∧
      ∀ code, (d.tryEncode t).answer = some code →
        (d.tryEncode t).dictionary.Represents t code := by
  rw [TermDictionary.tryEncode]
  cases hembed : embed? t with
  | some packed =>
    refine ⟨hd.follows, fun code hcode => Or.inl ?_⟩
    rw [hembed, Option.some.inj hcode]
  | none =>
    cases hcached : d.cachedCode? t with
    | some cached =>
      refine ⟨hd.follows, fun code hcode => Or.inr ?_⟩
      rw [← Option.some.inj hcode]
      exact hd.coded_of_cachedCode? hcached
    | none =>
      cases hfind : (d.existingKey? t).bind d.records.find? with
      | none => exact ⟨hd.follows, fun code hcode => by cases hcode⟩
      | some code =>
        obtain ⟨key, hkey, hcode⟩ := Option.bind_eq_some_iff.1 hfind
        have hissued := hd.records.find?_eq_some_iff.1 hcode
        -- the key is in use, so it is the key of a term, which can only be this one
        obtain ⟨own, hplain, hkeyed⟩ := hd.keyed hissued
        have hown := hkeyed.termOf hd.worded
        rw [termOf_of_existingKey? hd.worded hkey] at hown
        obtain rfl : t = own := Except.ok.inj hown
        have hcoded : d.Coded t code := ⟨hplain, key, hkeyed, hissued⟩
        have hremember := hd.follows_rememberCode hcoded
        refine ⟨hremember, ?_⟩
        intro found hfound
        obtain rfl := Option.some.inj hfound
        exact hremember.represents (Or.inr hcoded)

theorem Represents.tryEncode (h : d.Represents t code) (hd : d.Sound) :
    (d.tryEncode t).answer = some code := by
  rw [TermDictionary.tryEncode]
  rcases h with hembed | hcoded
  · rw [hembed]
  · rw [hcoded.1]
    cases hcached : d.cachedCode? t with
    | some cached => exact congrArg some (hd.code_unique (hd.coded_of_cachedCode? hcached) hcoded)
    | none =>
      obtain ⟨-, key, hkeyed, hissued⟩ := hcoded
      simp only [hkeyed.existingKey? hd.worded, Option.bind_some,
        hd.records.find?_eq_some_iff.2 hissued]

/-! ## Decoding -/

omit [Text.Hasher] in
/-- Issued codes are indexed. -/
lemma isIndexed_of_issued (h : d.records.Issued code key) : code.isIndexed = true := by
  obtain ⟨location, hlocate, -⟩ := Records.keyAt?_eq_some_iff.1 h.keyAt?
  rw [Records.locate?_eq] at hlocate
  split at hlocate
  next hindexed => exact hindexed
  next => cases hlocate

omit [Text.Hasher] in
lemma isEmbedded_eq_false_of_isIndexed (h : code.isIndexed = true) : code.isEmbedded = false := by
  simp only [Code.isIndexed, Bool.and_eq_true, decide_eq_true_eq] at h
  rw [Code.isEmbedded, Bool.and_eq_false_iff, decide_eq_false_iff_not]
  left
  omega

/-- What the decode cache knows is right. -/
lemma Sound.coded_of_cachedTerm? (hd : d.Sound) (h : d.cachedTerm? code = some t) :
    d.Coded t code := by
  obtain ⟨own, hsame, hkeeps⟩ := Cache.keeps_of_find? h
  obtain rfl := eq_of_beq hsame
  exact hd.decodeCache hkeeps

/-- A record stands for the term that it is put together to. -/
lemma Sound.coded_of_read (hd : d.Sound) (h : (d.records.read code).bind d.termOf = .ok t) :
    d.Coded t code := by
  cases hread : d.records.read code with
  | error error =>
    rw [hread] at h
    cases h
  | ok key =>
    have hissued := hd.records.read_eq_ok_iff_issued.1 hread
    obtain ⟨own, hplain, hkeyed⟩ := hd.keyed hissued
    rw [hread] at h
    obtain rfl : own = t := Except.ok.inj ((hkeyed.termOf hd.worded).symm.trans h)
    exact ⟨hplain, key, hkeyed, hissued⟩

/-- **Decoding goes on from where the dictionary was.** -/
theorem Sound.decode (hd : d.Sound) (code : Code) : d.Follows (d.decode code).dictionary := by
  rw [TermDictionary.decode]
  split
  · cases unembed? code <;> exact hd.follows
  · split
    · exact hd.follows
    · cases d.cachedTerm? code with
      | some t => exact hd.follows
      | none =>
        cases hread : (d.records.read code).bind d.termOf with
        | error error => exact hd.follows
        | ok t => exact hd.follows_rememberTerm (hd.coded_of_read hread)

/-- **A code that stands for a term is decoded to it.** -/
theorem Represents.decode (h : d.Represents t code) (hd : d.Sound) :
    (d.decode code).answer = .ok t := by
  rw [TermDictionary.decode]
  rcases h with hembed | hcoded
  · obtain ⟨hembedded, hunembed⟩ := unembed?_of_embed? hembed
    rw [if_pos hembedded, hunembed]
  · obtain ⟨-, key, hkeyed, hissued⟩ := id hcoded
    have hindexed := isIndexed_of_issued hissued
    rw [if_neg (by rw [isEmbedded_eq_false_of_isIndexed hindexed]; exact Bool.false_ne_true),
      if_neg (by rw [hindexed]; exact Bool.false_ne_true)]
    cases hcached : d.cachedTerm? code with
    | some cached =>
      exact congrArg Except.ok (hd.term_unique (hd.coded_of_cachedTerm? hcached) hcoded)
    | none =>
      have hread : d.records.read code = .ok key := hd.records.read_eq_ok_iff_issued.2 hissued
      simp only [hread, Except.bind, hkeyed.termOf hd.worded]

end TermDictionary

end QuadBase.Dictionary
