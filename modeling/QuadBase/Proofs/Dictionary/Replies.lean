import QuadBase.Dictionary.Stats
import QuadBase.Proofs.Dictionary.Permanence

/-!
# Replies

What a dictionary replies to a request, whatever it is, and to a run of requests.  The calls that
are counted on the way depend on the caches, but not much: a call that was resolved from a cache
would have been resolved from the records without it.  Up to that, the reply alone tells what is
counted.

* `respond`, `respondAll` — the replies.
* `Tally.Alike`, `Calls.Alike`, `Stats.Alike` — the same numbers but for that.
* `calls_encode`, `calls_tryEncode`, `calls_decode` — what is counted, by the answer.
-/

namespace QuadBase.Dictionary

open QuadBase.Rdf

/-! ## Numbers of calls -/

/-- The same calls, if those from a cache and those from the records are taken together. -/
structure Tally.Alike (a b : Tally) : Prop where
  embedded : a.embedded = b.embedded
  other : a.cached + a.indexed = b.cached + b.indexed

structure Calls.Alike (a b : Calls) : Prop where
  encode : a.encode.Alike b.encode
  decode : a.decode.Alike b.decode

namespace Tally.Alike

variable {a b c e : Tally}

lemma refl (a : Tally) : a.Alike a :=
  ⟨rfl, rfl⟩

lemma symm (h : a.Alike b) : b.Alike a :=
  ⟨h.embedded.symm, h.other.symm⟩

lemma trans (h : a.Alike b) (h' : b.Alike c) : a.Alike c :=
  ⟨h.embedded.trans h'.embedded, h.other.trans h'.other⟩

lemma add (h : a.Alike b) (h' : c.Alike e) : (a + c).Alike (b + e) := by
  have hother := h.other
  have hother' := h'.other
  refine ⟨congrArg₂ (· + ·) h.embedded h'.embedded, ?_⟩
  change a.cached + c.cached + (a.indexed + c.indexed) =
    b.cached + e.cached + (b.indexed + e.indexed)
  omega

end Tally.Alike

namespace Calls.Alike

variable {a b c e : Calls}

lemma refl (a : Calls) : a.Alike a :=
  ⟨.refl _, .refl _⟩

lemma symm (h : a.Alike b) : b.Alike a :=
  ⟨h.encode.symm, h.decode.symm⟩

lemma trans (h : a.Alike b) (h' : b.Alike c) : a.Alike c :=
  ⟨h.encode.trans h'.encode, h.decode.trans h'.decode⟩

lemma add (h : a.Alike b) (h' : c.Alike e) : (a + c).Alike (b + e) :=
  ⟨h.encode.add h'.encode, h.decode.add h'.decode⟩

/-- A cache spares the way to the records. -/
lemma encoding_cached : (Calls.encoding .cached).Alike (.encoding .indexed) :=
  ⟨⟨rfl, rfl⟩, .refl _⟩

lemma decoding_cached : (Calls.decoding .cached).Alike (.decoding .indexed) :=
  ⟨.refl _, ⟨rfl, rfl⟩⟩

end Calls.Alike

/-- The same numbers, but for the size of the record table and for which calls came from a cache. -/
structure Stats.Alike (a b : Stats) : Prop where
  namespaces : a.namespaces = b.namespaces
  languages : a.languages = b.languages
  datatypes : a.datatypes = b.datatypes
  values : a.values = b.values
  primaryBytes : a.primaryBytes = b.primaryBytes
  secondaryBytes : a.secondaryBytes = b.secondaryBytes
  calls : a.calls.Alike b.calls

/-! ## Replies -/

/-- What a request is answered with. -/
inductive Reply where
  | code (answer : Except DictionaryError Code)
  | found (code? : Option Code)
  | term (answer : Except DictionaryError Term)
  | graph (answer : Except DictionaryError GraphName)
  | codes (answer : Except DictionaryError CodedQuad)
  | quad (answer : Except DictionaryError Quad)
  | verdict (answer : Except DictionaryError Bool)
  | forked

/-- Puts an answer in another form. -/
def Outcome.map {α β : Type} (f : α → β) (o : Outcome α) : Outcome β :=
  ⟨f o.answer, o.calls, o.dictionary⟩

namespace TermDictionary

variable [Text.Hasher] {d : TermDictionary} {t : Term} {code : Code}

/-- The reply to a request, with the calls that it counts and the dictionary that it leaves. -/
def respond (d : TermDictionary) : Request → Outcome Reply
  | .encode t => (d.encode t).map .code
  | .tryEncode t => (d.tryEncode t).map .found
  | .decode code => (d.decode code).map .term
  | .encodeGraph graph => (d.encodeGraph graph).map .code
  | .decodeGraph code => (d.decodeGraph code).map .graph
  | .encodeQuad quad => (d.encodeQuad quad).map .codes
  | .decodeQuad codes => (d.decodeQuad codes).map .quad
  | .isLiteral code => d.answer (.verdict (d.isLiteral code))
  | .isIri code => d.answer (.verdict (d.isIri code))
  | .isBlankNode code => d.answer (.verdict (d.isBlankNode code))
  | .isResource code => d.answer (.verdict (d.isResource code))
  | .fork => d.fork.answer .forked

/-- The replies to some requests, with all calls that they count. -/
def respondAll (d : TermDictionary) : List Request → Outcome (List Reply)
  | [] => d.answer []
  | request :: requests =>
    let first := d.respond request
    let rest := first.dictionary.respondAll requests
    ⟨first.answer :: rest.answer, first.calls + rest.calls, rest.dictionary⟩

lemma dictionary_respond (d : TermDictionary) (request : Request) :
    (d.respond request).dictionary = d.serve request := by
  cases request <;> rfl

lemma dictionary_respondAll (d : TermDictionary) (requests : List Request) :
    (d.respondAll requests).dictionary = d.serveAll requests := by
  induction requests generalizing d with
  | nil => rfl
  | cons request requests ih =>
    rw [respondAll, ih, dictionary_respond]
    rfl

/-! ## What is counted -/

/-- What encoding a term counts, up to caches, by whether there is an answer. -/
def encodingCalls (t : Term) (answered : Bool) : Calls :=
  if (embed? t).isSome then .encoding .embedded
  else if answered then .encoding .indexed
  else .none

/-- What decoding a code counts, up to caches, by whether there is an answer. -/
def decodingCalls (code : Code) (answered : Bool) : Calls :=
  if code.isEmbedded then .decoding .embedded
  else if answered then .decoding .indexed
  else .none

theorem calls_encode (d : TermDictionary) (t : Term) :
    (d.encode t).calls.Alike (encodingCalls t (d.encode t).answer.toBool) := by
  rw [encode, encodingCalls]
  cases embed? t with
  | some packed => exact .refl _
  | none =>
    cases d.cachedCode? t with
    | some cached => exact .encoding_cached
    | none =>
      obtain ⟨answer, e⟩ := d.internKey t
      cases answer with
      | error error => exact .refl _
      | ok key =>
        cases hinsert : e.insertKey key with
        | mk answer f =>
          simp only [hinsert]
          cases answer <;> exact .refl _

theorem calls_tryEncode (d : TermDictionary) (t : Term) :
    (d.tryEncode t).calls.Alike (encodingCalls t (d.tryEncode t).answer.isSome) := by
  rw [tryEncode, encodingCalls]
  cases embed? t with
  | some packed => exact .refl _
  | none =>
    cases d.cachedCode? t with
    | some cached => exact .encoding_cached
    | none =>
      simp only
      cases (d.existingKey? t).bind d.records.find? <;> exact .refl _

theorem calls_decode (d : TermDictionary) (code : Code) :
    (d.decode code).calls.Alike (decodingCalls code (d.decode code).answer.toBool) := by
  rw [decode, decodingCalls]
  split
  · cases unembed? code <;> exact .refl _
  · split
    · exact .refl _
    · cases d.cachedTerm? code with
      | some cached => exact .decoding_cached
      | none =>
        simp only
        cases (d.records.read code).bind d.termOf <;> exact .refl _

end TermDictionary

end QuadBase.Dictionary
