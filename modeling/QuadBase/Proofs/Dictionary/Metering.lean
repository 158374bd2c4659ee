import QuadBase.Proofs.Dictionary.Ancestry
import QuadBase.Proofs.Dictionary.Classification

/-!
# What the meters show

A request encodes terms, or decodes codes, one after the other and until one of them fails.  Each of
these *term calls* is counted once if it yields something, and as embedded if the code is embedded.
What does not encode or decode anything is not counted.  Nor are failures, with one exception:
decoding an embedded code is counted even if nothing is packed into it.

* `termCalls` — the term calls of a request, with what came of them.
* `Metered` — what a meter adds up for some term calls.
* `Sound.metered_respond` — a request counts its term calls, also if it fails halfway.
* `callsOf_metered` — **a meter adds up the term calls of all dictionaries that share it**.
* `decode_total_lastWord` — the exception.
-/

namespace QuadBase.Dictionary

open QuadBase.Rdf

/-! ## Term calls -/

/-- A term that is encoded or a code that is decoded, and what it yields. -/
inductive TermCall where
  | encoding (t : Term) (code? : Option Code)
  | decoding (code : Code) (t? : Option Term)
  deriving DecidableEq

namespace TermCall

def yieldsCode : TermCall → Bool
  | encoding _ code? => code?.isSome
  | decoding _ _ => false

def yieldsEmbedded : TermCall → Bool
  | encoding _ code? => code?.any Code.isEmbedded
  | decoding _ _ => false

def yieldsTerm : TermCall → Bool
  | encoding _ _ => false
  | decoding _ t? => t?.isSome

/-- An embedded code is decoded, successfully or not. -/
def unpacks : TermCall → Bool
  | encoding _ _ => false
  | decoding code _ => code.isEmbedded

/-- An embedded code is decoded, but nothing is packed into it. -/
def unpacksNothing : TermCall → Bool
  | encoding _ _ => false
  | decoding code t? => code.isEmbedded && t?.isNone

/-- What is counted for a term call. -/
inductive Counts : TermCall → Calls → Prop where
  | encoded {t : Term} {code : Code} {r : Resolution}
      (h : r = .embedded ↔ code.isEmbedded = true) :
      Counts (.encoding t (some code)) (.encoding r)
  | notEncoded {t : Term} : Counts (.encoding t none) .none
  | decoded {code : Code} {t : Term} {r : Resolution}
      (h : r = .embedded ↔ code.isEmbedded = true) :
      Counts (.decoding code (some t)) (.decoding r)
  | notDecoded {code : Code} (h : code.isEmbedded = false) : Counts (.decoding code none) .none
  /-- It is counted before it turns out that nothing is packed into the code. -/
  | notUnpacked {code : Code} (h : code.isEmbedded = true) :
      Counts (.decoding code none) (.decoding .embedded)

end TermCall

/-- What is counted for some term calls: each of them adds its share. -/
inductive Metered : List TermCall → Calls → Prop where
  | nil : Metered [] .none
  | cons {call : TermCall} {made : List TermCall} {calls more : Calls} (first : call.Counts calls)
      (rest : Metered made more) : Metered (call :: made) (calls + more)

/-! ## Sums of calls -/

namespace Tally

attribute [ext] Tally

@[simp]
lemma embedded_add (a b : Tally) : (a + b).embedded = a.embedded + b.embedded := rfl

@[simp]
lemma cached_add (a b : Tally) : (a + b).cached = a.cached + b.cached := rfl

@[simp]
lemma indexed_add (a b : Tally) : (a + b).indexed = a.indexed + b.indexed := rfl

lemma none_add (a : Tally) : ({} : Tally) + a = a := by
  ext <;> simp

lemma add_assoc (a b c : Tally) : a + b + c = a + (b + c) := by
  ext <;> simp [Nat.add_assoc]

/-- A call is counted once. -/
lemma total_one (r : Resolution) : (one r).total = 1 := by
  cases r <;> rfl

lemma embedded_one (r : Resolution) : (one r).embedded = if r = .embedded then 1 else 0 := by
  cases r <;> rfl

end Tally

namespace Calls

attribute [ext] Calls

@[simp]
lemma encode_add (a b : Calls) : (a + b).encode = a.encode + b.encode := rfl

@[simp]
lemma decode_add (a b : Calls) : (a + b).decode = a.decode + b.decode := rfl

lemma none_add (a : Calls) : .none + a = a :=
  Calls.ext (Tally.none_add _) (Tally.none_add _)

lemma add_assoc (a b c : Calls) : a + b + c = a + (b + c) :=
  Calls.ext (Tally.add_assoc _ _ _) (Tally.add_assoc _ _ _)

end Calls

namespace Metered

variable {made more : List TermCall} {calls calls' : Calls}

/-- What is counted for one term call. -/
lemma single {call : TermCall} (h : call.Counts calls) : Metered [call] calls :=
  .cons h .nil

lemma append (h : Metered made calls) (h' : Metered more calls') :
    Metered (made ++ more) (calls + calls') := by
  induction h with
  | nil => rwa [Calls.none_add]
  | cons first rest ih =>
    rw [Calls.add_assoc]
    exact .cons first ih

/-- A counter that adds up shows how many of the calls it goes up for. -/
lemma eq_countP (h : Metered made calls) (counter : Calls → Nat) (counted : TermCall → Bool)
    (hzero : counter .none = 0) (hadd : ∀ a b, counter (a + b) = counter a + counter b)
    (hcall : ∀ {call calls}, call.Counts calls → counter calls = if counted call then 1 else 0) :
    counter calls = made.countP counted := by
  induction h with
  | nil => exact hzero
  | cons first rest ih => rw [hadd, hcall first, ih, List.countP_cons, Nat.add_comm]

/-- What has one property or the other, if nothing has both. -/
lemma countP_or {α : Type} {p q : α → Bool} (h : ∀ a, p a = true → q a = false) (l : List α) :
    l.countP (fun a => p a || q a) = l.countP p + l.countP q := by
  induction l with
  | nil => rfl
  | cons a l ih =>
    rw [List.countP_cons, List.countP_cons, List.countP_cons, ih]
    cases hp : p a with
    | false => cases q a <;> simp [Nat.add_assoc]
    | true => simp [h a hp, Nat.add_right_comm]

/-- **Encodings that yield a code are counted once each**, and no others. -/
lemma encode_total (h : Metered made calls) :
    calls.encode.total = made.countP TermCall.yieldsCode := by
  refine h.eq_countP (fun calls => calls.encode.total) _ rfl
    (fun a b => Tally.total_add a.encode b.encode) ?_
  rintro _ _ (_ | _ | _ | _ | _)
  · exact Tally.total_one _
  all_goals rfl

/-- They are counted as embedded if the code is. -/
lemma encode_embedded (h : Metered made calls) :
    calls.encode.embedded = made.countP TermCall.yieldsEmbedded := by
  refine h.eq_countP (fun calls => calls.encode.embedded) _ rfl (fun _ _ => rfl) ?_
  rintro _ _ (hr | _ | _ | _ | _)
  · exact (Tally.embedded_one _).trans (if_congr hr rfl rfl)
  all_goals rfl

/-- **Decodings that yield a term are counted once each**, and so are those of embedded codes with
nothing packed into them. -/
lemma decode_total (h : Metered made calls) : calls.decode.total =
    made.countP TermCall.yieldsTerm + made.countP TermCall.unpacksNothing := by
  refine Eq.trans (h.eq_countP (fun calls => calls.decode.total)
    (fun call => call.yieldsTerm || call.unpacksNothing) rfl
    (fun a b => Tally.total_add a.decode b.decode) ?_) ?_
  · rintro _ _ (_ | _ | _ | hcode | hcode)
    · rfl
    · rfl
    · exact Tally.total_one _
    · simp [TermCall.yieldsTerm, TermCall.unpacksNothing, hcode, Calls.none, Tally.total]
    · simp [TermCall.yieldsTerm, TermCall.unpacksNothing, hcode, Calls.decoding, Tally.total_one]
  · refine countP_or ?_ made
    rintro (_ | ⟨code, _ | t⟩) hyields
    · rfl
    · cases hyields
    · exact Bool.and_false _

/-- They are counted as embedded if the code is. -/
lemma decode_embedded (h : Metered made calls) :
    calls.decode.embedded = made.countP TermCall.unpacks := by
  refine h.eq_countP (fun calls => calls.decode.embedded) _ rfl (fun _ _ => rfl) ?_
  rintro _ _ (_ | _ | hr | hcode | hcode)
  · rfl
  · rfl
  · exact (Tally.embedded_one _).trans (if_congr hr rfl rfl)
  · exact (if_neg (by rw [TermCall.unpacks, hcode]; exact Bool.false_ne_true)).symm
  · exact (if_pos hcode).symm

end Metered

end QuadBase.Dictionary

namespace QuadBase

open QuadBase.Rdf

/-! ## The term calls of a request -/

/-- Whether a term may stand at a position. -/
def Rdf.Position.allows : Position → Term → Bool
  | .subject, t | .graph, t => !t.isLiteral
  | .predicate, t => t.isIri
  | .object, _ => true

namespace Dictionary

/-- The codes in the place of a graph name. -/
def graphCodes (code : Code) : List (Position × Code) :=
  if code.isNull then [] else [(.graph, code)]

/-- The codes that a request decodes, in this order, and where the terms are to stand. -/
def Request.decoded : Request → List (Position × Code)
  | .decode code => [(.object, code)]
  | .decodeGraph code => graphCodes code
  | .decodeQuad codes =>
    (.subject, codes.subject) :: (.predicate, codes.predicate) :: (.object, codes.object) ::
      graphCodes codes.graph
  | _ => []

namespace TermDictionary

variable [Text.Hasher] {d : TermDictionary} {t : Term} {code : Code}

/-- The encodings of some terms.  The first failure ends them. -/
def encodings (d : TermDictionary) : List Term → List TermCall
  | [] => []
  | t :: ts =>
    .encoding t (d.encode t).answer.toOption ::
      match (d.encode t).answer with
      | .ok _ => (d.encode t).dictionary.encodings ts
      | .error _ => []

/-- The decodings of some codes.  The first failure ends them, and so does the first term that may
not stand in its place. -/
def decodings (d : TermDictionary) : List (Position × Code) → List TermCall
  | [] => []
  | (position, code) :: rest =>
    .decoding code (d.decode code).answer.toOption ::
      match (d.decode code).answer with
      | .ok t => if position.allows t then (d.decode code).dictionary.decodings rest else []
      | .error _ => []

/-- The term calls that a request makes.  Classifications and forks make none. -/
def termCalls (d : TermDictionary) : Request → List TermCall
  | .tryEncode t => [.encoding t (d.tryEncode t).answer]
  | request => d.encodings request.encoded ++ d.decodings request.decoded

/-! ## What a term call counts -/

omit [Text.Hasher] in
/-- The code of a term is embedded if the term is packed into it. -/
lemma Represents.isEmbedded_eq (h : d.Represents t code) :
    code.isEmbedded = (embed? t).isSome := by
  rcases h with hembed | ⟨hplain, key, -, hissued⟩
  · rw [hembed, (unembed?_of_embed? hembed).1, Option.isSome_some]
  · rw [hplain, isEmbedded_eq_false_of_isIndexed (isIndexed_of_issued hissued), Option.isSome_none]

omit [Text.Hasher] in
/-- Other codes are resolved in other ways. -/
lemma resolved_otherwise {r : Resolution} (hcode : code.isEmbedded = false) (hr : r ≠ .embedded) :
    r = .embedded ↔ code.isEmbedded = true :=
  iff_of_false hr (by rw [hcode]; exact Bool.false_ne_true)

lemma Sound.counts_encode (hd : d.Sound) (t : Term) :
    (TermCall.encoding t (d.encode t).answer.toOption).Counts (d.encode t).calls := by
  have hcode : ∀ {code}, (d.encode t).answer = .ok code → code.isEmbedded = (embed? t).isSome :=
    fun hok => ((hd.encode t).2 _ hok).isEmbedded_eq
  revert hcode
  rw [TermDictionary.encode]
  cases embed? t with
  | some packed => exact fun hcode => .encoded (iff_of_true rfl (hcode rfl))
  | none =>
    cases d.cachedCode? t with
    | some cached => exact fun hcode => .encoded (resolved_otherwise (hcode rfl) (by decide))
    | none =>
      obtain ⟨answer, e⟩ := d.internKey t
      cases answer with
      | error error => exact fun _ => .notEncoded
      | ok key =>
        cases hinsert : e.insertKey key with
        | mk answer f =>
          simp only [hinsert]
          cases answer with
          | error error => exact fun _ => .notEncoded
          | ok code => exact fun hcode => .encoded (resolved_otherwise (hcode rfl) (by decide))

lemma Sound.counts_tryEncode (hd : d.Sound) (t : Term) :
    (TermCall.encoding t (d.tryEncode t).answer).Counts (d.tryEncode t).calls := by
  have hcode : ∀ {code}, (d.tryEncode t).answer = some code →
      code.isEmbedded = (embed? t).isSome :=
    fun hsome => ((hd.tryEncode t).2 _ hsome).isEmbedded_eq
  revert hcode
  rw [TermDictionary.tryEncode]
  cases embed? t with
  | some packed => exact fun hcode => .encoded (iff_of_true rfl (hcode rfl))
  | none =>
    cases d.cachedCode? t with
    | some cached => exact fun hcode => .encoded (resolved_otherwise (hcode rfl) (by decide))
    | none =>
      simp only
      cases (d.existingKey? t).bind d.records.find? with
      | none => exact fun _ => .notEncoded
      | some code => exact fun hcode => .encoded (resolved_otherwise (hcode rfl) (by decide))

/-- Whether a decoding is counted as embedded shows in the code alone. -/
lemma counts_decode (d : TermDictionary) (code : Code) :
    (TermCall.decoding code (d.decode code).answer.toOption).Counts (d.decode code).calls := by
  rw [TermDictionary.decode]
  cases hcode : code.isEmbedded with
  | true =>
    cases unembed? code with
    | none => exact .notUnpacked hcode
    | some t => exact .decoded (iff_of_true rfl hcode)
  | false =>
    rw [if_neg Bool.false_ne_true]
    split
    · exact .notDecoded hcode
    · cases d.cachedTerm? code with
      | some t => exact .decoded (resolved_otherwise hcode (by decide))
      | none =>
        simp only
        cases (d.records.read code).bind d.termOf with
        | error error => exact .notDecoded hcode
        | ok t => exact .decoded (resolved_otherwise hcode (by decide))

/-! ## What a request counts -/

omit [Text.Hasher] in
/-- Nothing more is done with an answer. -/
lemma andThen_answer {α : Type} (o : Outcome (Except DictionaryError α)) :
    (o.andThen fun a d => d.answer (.ok a)) = o := by
  obtain ⟨answer, calls, e⟩ := o
  cases answer <;> rfl

omit [Text.Hasher] in
/-- Nothing more is counted. -/
lemma calls_andThen {α β : Type} {o : Outcome (Except DictionaryError α)}
    {next : α → TermDictionary → Outcome (Except DictionaryError β)}
    (h : ∀ a e, (next a e).calls = .none) : (o.andThen next).calls = o.calls := by
  obtain ⟨answer, calls, e⟩ := o
  cases answer with
  | error error => rfl
  | ok a => exact congrArg (calls + ·) (h a e)

/-- A term is encoded, and its code is used. -/
lemma Sound.metered_encode_andThen {α : Type} (hd : d.Sound) {ts : List Term}
    {next : Code → TermDictionary → Outcome (Except DictionaryError α)}
    (h : ∀ (code : Code) (e : TermDictionary), e.Sound →
      Metered (e.encodings ts) (next code e).calls) :
    Metered (d.encodings (t :: ts)) ((d.encode t).andThen next).calls := by
  have hcounts := hd.counts_encode t
  have hsound := (hd.encode t).1.sound
  rw [encodings]
  revert hcounts hsound
  obtain ⟨answer, calls, e⟩ := d.encode t
  cases answer with
  | error error => exact fun hcounts _ => .single hcounts
  | ok code => exact fun hcounts hsound => .cons hcounts (h code e hsound)

lemma Sound.metered_encode (hd : d.Sound) (t : Term) :
    Metered (d.encodings [t]) (d.encode t).calls := by
  rw [← andThen_answer (d.encode t)]
  exact hd.metered_encode_andThen fun _ _ _ => .nil

lemma Sound.metered_encodeGraph (hd : d.Sound) (graph : GraphName) :
    Metered (d.encodings (graphTerms graph)) (d.encodeGraph graph).calls := by
  cases graph with
  | defaultGraph => exact .nil
  | named r => exact hd.metered_encode (.resource r)

lemma Sound.metered_encodeQuad (hd : d.Sound) (quad : Quad) :
    Metered (d.encodings (Request.encodeQuad quad).encoded) (d.encodeQuad quad).calls := by
  refine hd.metered_encode_andThen ?_
  intro _ d hd
  refine hd.metered_encode_andThen ?_
  intro _ d hd
  refine hd.metered_encode_andThen ?_
  intro _ d hd
  rw [calls_andThen fun _ _ => rfl]
  exact hd.metered_encodeGraph quad.graph

/-- A code is decoded, its term is checked for its place, and what passes is used. -/
lemma metered_check_andThen {α β : Type} {position : Position} {rest : List (Position × Code)}
    {check : Term → Except DictionaryError α}
    {next : α → TermDictionary → Outcome (Except DictionaryError β)}
    (hcheck : ∀ t, (check t).toBool = position.allows t)
    (h : ∀ (a : α) (e : TermDictionary), Metered (e.decodings rest) (next a e).calls) :
    Metered (d.decodings ((position, code) :: rest))
      (((d.decode code).andThen fun t d => d.answer (check t)).andThen next).calls := by
  have hcounts := d.counts_decode code
  rw [decodings]
  revert hcounts
  obtain ⟨answer, calls, e⟩ := d.decode code
  cases answer with
  | error error => exact .single
  | ok t =>
    intro hcounts
    simp only [← hcheck t, Outcome.andThen, TermDictionary.answer]
    cases check t with
    | error error => exact .single hcounts
    | ok a => exact .cons hcounts (h a e)

/-- The object may be any term. -/
lemma metered_decode_andThen {α : Type} {rest : List (Position × Code)}
    {next : Term → TermDictionary → Outcome (Except DictionaryError α)}
    (h : ∀ (t : Term) (e : TermDictionary), Metered (e.decodings rest) (next t e).calls) :
    Metered (d.decodings ((.object, code) :: rest)) ((d.decode code).andThen next).calls := by
  rw [← andThen_answer (d.decode code)]
  exact metered_check_andThen (fun _ => rfl) h

lemma metered_decode (d : TermDictionary) (code : Code) :
    Metered (d.decodings [(.object, code)]) (d.decode code).calls := by
  rw [← andThen_answer (d.decode code)]
  exact metered_decode_andThen fun _ _ => .nil

lemma metered_decodeGraph (d : TermDictionary) (code : Code) :
    Metered (d.decodings (graphCodes code)) (d.decodeGraph code).calls := by
  rw [graphCodes, decodeGraph]
  split
  · exact .nil
  · exact metered_check_andThen (fun t => by cases t <;> rfl) fun _ _ => .nil

lemma metered_decodeQuad (d : TermDictionary) (codes : CodedQuad) :
    Metered (d.decodings (Request.decodeQuad codes).decoded) (d.decodeQuad codes).calls := by
  refine metered_check_andThen (fun t => by cases t <;> rfl) ?_
  intro _ d
  refine metered_check_andThen (fun t => by rcases t with (_ | _) | _ <;> rfl) ?_
  intro _ d
  refine metered_decode_andThen ?_
  intro _ d
  rw [calls_andThen fun _ _ => rfl]
  exact d.metered_decodeGraph codes.graph

/-- **A request counts its term calls**, also if it fails halfway. -/
theorem Sound.metered_respond (hd : d.Sound) (request : Request) :
    Metered (d.termCalls request) (d.respond request).calls := by
  cases request with
  | encode t => exact (hd.metered_encode t).append .nil
  | tryEncode t => exact .single (hd.counts_tryEncode t)
  | decode code => exact d.metered_decode code
  | encodeGraph graph => exact (hd.metered_encodeGraph graph).append .nil
  | decodeGraph code => exact d.metered_decodeGraph code
  | encodeQuad quad => exact (hd.metered_encodeQuad quad).append .nil
  | decodeQuad codes => exact d.metered_decodeQuad codes
  | isLiteral | isIri | isBlankNode | isResource | fork => exact .nil

end TermDictionary

/-! ## Meters -/

namespace Registry

variable [Text.Hasher] {r : Registry} {meter : Nat}

/-- The term calls that an event makes on a meter. -/
def termCalls (r : Registry) (meter : Nat) : Event → List TermCall
  | .create _ _ | .fork _ => []
  | .ask number request =>
    match r.dictionary? number with
    | some d => if r.meterOf[number]? = some meter then d.termCalls request else []
    | none => []

/-- The term calls that some events make on a meter. -/
def termCallsAll (r : Registry) (meter : Nat) : List Event → List TermCall
  | [] => []
  | event :: events => r.termCalls meter event ++ (r.handle event).termCallsAll meter events

/-- What a meter shows, and nothing for one that is not there. -/
def reading (r : Registry) (meter : Nat) : Calls :=
  r.meters[meter]?.getD .none

/-- Every dictionary is sound and has a meter. -/
structure Connected (r : Registry) : Prop where
  size_eq : r.meterOf.size = r.dictionaries.size
  meter_lt : ∀ meter ∈ r.meterOf, meter < r.meters.size
  /-- There is a meter to share. -/
  pos : 0 < r.meters.size
  sound : ∀ d ∈ r.dictionaries, d.Sound

omit [Text.Hasher] in
/-- A new meter shows nothing. -/
lemma reading_add (r : Registry) (d : TermDictionary) (meter : Nat) :
    (r.add d).reading meter = r.reading meter := by
  rw [reading, reading, add, Array.getElem?_push]
  split
  next h => rw [h, Array.getElem?_size]; rfl
  next => rfl

/-- A request leaves the meters connected as they are, and counts on one of them. -/
lemma meters_ask {number : Nat} {d : TermDictionary} (h : r.dictionary? number = some d)
    (request : Request) : (r.ask number request).2.meterOf = r.meterOf ∧
      (r.ask number request).2.meters =
        r.meters.modify (r.meterOf.getD number 0) (· + (d.respond request).calls) := by
  obtain ⟨hlt, hd⟩ := getD_of_dictionary? h
  simp only [ask, call, if_pos hlt, takeOut, hd]
  exact ⟨trivial, trivial⟩

namespace Connected

variable {d : TermDictionary}

/-- Every dictionary that there is has a meter. -/
lemma meter?_of_dictionary? (h : r.Connected) {number : Nat} (hd : r.dictionary? number = some d) :
    ∃ own, r.meterOf[number]? = some own ∧ own < r.meters.size := by
  have hlt : number < r.meterOf.size := h.size_eq ▸ (Array.getElem?_eq_some_iff.1 hd).1
  exact ⟨r.meterOf[number], Array.getElem?_eq_getElem hlt, h.meter_lt _ (Array.getElem_mem hlt)⟩

lemma add (h : r.Connected) (hd : d.Sound) : (r.add d).Connected where
  size_eq := by simp [Registry.add, h.size_eq]
  meter_lt meter hmem := by
    simp only [Registry.add, Array.size_push]
    rcases Array.mem_push.1 hmem with hold | rfl
    · exact Nat.lt_succ_of_lt (h.meter_lt meter hold)
    · exact Nat.lt_succ_self _
  pos := by simp [Registry.add]
  sound e hmem := by
    rcases Array.mem_push.1 hmem with hold | rfl
    · exact h.sound e hold
    · exact hd

lemma addSharing (h : r.Connected) (hd : d.Sound) (other : Nat) :
    (r.addSharing d other).Connected where
  size_eq := by simp [Registry.addSharing, h.size_eq]
  meter_lt meter hmem := by
    rcases Array.mem_push.1 hmem with hold | rfl
    · exact h.meter_lt meter hold
    · rw [Array.getD]
      split
      next hlt => exact h.meter_lt _ (Array.getElem_mem hlt)
      next => exact h.pos
  pos := h.pos
  sound e hmem := by
    rcases Array.mem_push.1 hmem with hold | rfl
    · exact h.sound e hold
    · exact hd

lemma ask (h : r.Connected) {number : Nat} (hd : r.dictionary? number = some d)
    (request : Request) : (r.ask number request).2.Connected := by
  obtain ⟨hmeterOf, hmeters⟩ := meters_ask hd request
  have hdictionaries := (ask_of_some hd request).2
  have hsize : (r.ask number request).2.meters.size = r.meters.size := by
    rw [hmeters, Array.size_modify]
  refine ⟨?_, ?_, hsize ▸ h.pos, ?_⟩
  · rw [hmeterOf, h.size_eq, ← Array.length_toList, ← Array.length_toList, hdictionaries,
      List.length_set]
  · rw [hmeterOf, hsize]
    exact h.meter_lt
  · intro e hmem
    rw [← Array.mem_toList_iff, hdictionaries] at hmem
    rcases List.mem_or_eq_of_mem_set hmem with hold | rfl
    · exact h.sound e (Array.mem_toList_iff.1 hold)
    · exact ((h.sound d (Array.mem_of_getElem? hd)).serve request).sound

/-- **An event adds its term calls to the meter**, and leaves the others alone. -/
lemma handle (h : r.Connected) (meter : Nat) (event : Event) : (r.handle event).Connected ∧
    ∃ calls, Metered (r.termCalls meter event) calls ∧
      (r.handle event).reading meter = r.reading meter + calls := by
  cases event with
  | create config shared =>
    have hd := TermDictionary.create_sound config
    cases shared with
    | none => exact ⟨h.add hd, .none, .nil, r.reading_add _ meter⟩
    | some other => exact ⟨h.addSharing hd other, .none, .nil, rfl⟩
  | fork number =>
    rw [Registry.handle, fork]
    cases hd : r.dictionary? number with
    | none => exact ⟨h, .none, .nil, rfl⟩
    | some d =>
      have hfork := (h.sound d (Array.mem_of_getElem? hd)).follows_fork.sound
      exact ⟨h.add hfork, .none, .nil, r.reading_add _ meter⟩
  | ask number request =>
    rw [Registry.handle, termCalls]
    cases hd : r.dictionary? number with
    | none =>
      rw [ask_of_none hd]
      exact ⟨h, .none, .nil, rfl⟩
    | some d =>
      obtain ⟨own, hown, hlt⟩ := h.meter?_of_dictionary? hd
      have hreading : (r.ask number request).2.reading meter = r.reading meter +
          if own = meter then (d.respond request).calls else .none := by
        rw [reading, (meters_ask hd request).2, Array.getD_eq_getD_getElem?, hown,
          Option.getD_some, Array.getElem?_modify, reading]
        split
        next hsame =>
          rw [← hsame, Array.getElem?_eq_getElem hlt]
          rfl
        next => rfl
      refine ⟨h.ask hd request, _, ?_, hreading⟩
      have hmetered := (h.sound d (Array.mem_of_getElem? hd)).metered_respond request
      simp only [hown, Option.some.injEq]
      split
      next => exact hmetered
      next => exact .nil

lemma handleAll (h : r.Connected) (meter : Nat) (events : List Event) :
    ∃ calls, Metered (r.termCallsAll meter events) calls ∧
      (r.handleAll events).reading meter = r.reading meter + calls := by
  induction events generalizing r with
  | nil => exact ⟨.none, .nil, rfl⟩
  | cons event events ih =>
    obtain ⟨hnext, calls, hcalls, hreading⟩ := h.handle meter event
    obtain ⟨more, hmore, hreading'⟩ := ih hnext
    refine ⟨calls + more, hcalls.append hmore, ?_⟩
    rw [← Calls.add_assoc, ← hreading]
    exact hreading'

end Connected

/-- A registry with one dictionary. -/
def start (config : Config) : Registry :=
  ({} : Registry).create config none

lemma connected_start (config : Config) : (start config).Connected where
  size_eq := rfl
  meter_lt meter hmem := by
    rcases Array.mem_push.1 hmem with hold | rfl
    · exact absurd hold (Array.not_mem_empty _)
    · exact Nat.one_pos
  pos := Nat.one_pos
  sound d hmem := by
    rcases Array.mem_push.1 hmem with hold | rfl
    · exact absurd hold (Array.not_mem_empty _)
    · exact TermDictionary.create_sound config

/-- **A meter adds up the term calls of all dictionaries that share it**, whatever else they are
asked for.  The encodings that yield a code are counted once each, and as embedded if the code is.
The decodings that yield a term are counted likewise; but a decoding that finds nothing packed into
an embedded code is counted as well. -/
theorem callsOf_metered (config : Config) (events : List Event) {number meter : Nat}
    (h : ((start config).handleAll events).meterOf[number]? = some meter) :
    let made := (start config).termCallsAll meter events
    let calls := ((start config).handleAll events).callsOf number
    Metered made calls ∧
      calls.encode.total = made.countP TermCall.yieldsCode ∧
      calls.encode.embedded = made.countP TermCall.yieldsEmbedded ∧
      calls.decode.total =
        made.countP TermCall.yieldsTerm + made.countP TermCall.unpacksNothing ∧
      calls.decode.embedded = made.countP TermCall.unpacks := by
  intro made calls
  have hmetered : Metered made calls := by
    obtain ⟨added, hadded, hreading⟩ := (connected_start config).handleAll meter events
    have hzero : (start config).reading meter = .none :=
      reading_add {} (TermDictionary.create config) meter
    have hcalls : calls = ((start config).handleAll events).reading meter := by
      simp only [calls, callsOf, h, Option.bind_some, reading]
    rwa [hcalls, hreading, hzero, Calls.none_add]
  exact ⟨hmetered, hmetered.encode_total, hmetered.encode_embedded, hmetered.decode_total,
    hmetered.decode_embedded⟩

end Registry

/-- Two dictionaries with one meter.  What they do not find is not counted. -/
theorem Registry.callsOf_metered_shared :
    let events : List Event :=
      [.create {} (some 0), .ask 0 (.encode (.blank "a")), .ask 1 (.encode (.blank "b")),
        .ask 1 (.decode ⟨1⟩), .ask 1 (.decode ⟨7⟩), .ask 0 (.tryEncode (.blank "c"))]
    let calls := ((start {}).handleAll events).callsOf 1
    ((start {}).handleAll events).meterOf[1]? = some 0 ∧
      (start {}).termCallsAll 0 events =
        [.encoding (.blank "a") (some ⟨1⟩), .encoding (.blank "b") (some ⟨1⟩),
          .decoding ⟨1⟩ (some (.blank "b")), .decoding ⟨7⟩ none, .encoding (.blank "c") none] ∧
      calls.encode.total = 2 ∧ calls.decode.total = 1 := by
  intro events calls
  have hmeter : ((start {}).handleAll events).meterOf[1]? = some 0 := by decide +kernel
  have hmade : (start {}).termCallsAll 0 events =
      [.encoding (.blank "a") (some ⟨1⟩), .encoding (.blank "b") (some ⟨1⟩),
        .decoding ⟨1⟩ (some (.blank "b")), .decoding ⟨7⟩ none, .encoding (.blank "c") none] := by
    decide +kernel
  obtain ⟨-, hencode, -, hdecode, -⟩ := callsOf_metered {} events hmeter
  rw [hmade] at hencode hdecode
  exact ⟨hmeter, hmade, hencode, hdecode⟩

/-- The last word is an embedded code with nothing in it.  No term is decoded, and yet a decoding is
counted. -/
theorem Registry.decode_total_lastWord :
    let events : List Event := [.ask 0 (.decode ⟨0xFFFFFFFF⟩)]
    let made := (start {}).termCallsAll 0 events
    made = [.decoding ⟨0xFFFFFFFF⟩ none] ∧ made.countP TermCall.yieldsTerm = 0 ∧
      (((start {}).handleAll events).callsOf 0).decode.total = 1 := by
  decide +kernel

end Dictionary

end QuadBase
