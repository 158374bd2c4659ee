import QuadBase.Dictionary.Quads
import QuadBase.Stream.Handler

/-!
# Streams through a dictionary

Two handlers put a dictionary in front of another handler: one encodes the quads that it receives,
the other decodes coded quads.  A quad that the dictionary refuses is not passed on, and its failure
becomes the refusal.

* `encoding`, `decoding` — the two handlers.
* `throughDictionary` — a stream as an operation of the dictionary.
-/

namespace QuadBase.Stream

open QuadBase.Dictionary QuadBase.Rdf

/-- A dictionary with the calls counted so far and the state of the handler behind it. -/
structure Through (σ : Type) where
  dictionary : TermDictionary
  calls : Calls
  inner : σ

variable [Text.Hasher] {σ ε α β : Type}

/-- Converts an item with the dictionary and passes it on. -/
def passOn (conversion : TermDictionary → α → Outcome (Except DictionaryError β))
    (lift : DictionaryError → ε) (inner : Handler σ ε β) (item : α) (t : Through σ) :
    Except ε Unit × Through σ :=
  let ⟨d, calls, s⟩ := t
  match conversion d item with
  | ⟨.error e, more, d⟩ => (.error (lift e), ⟨d, calls + more, s⟩)
  | ⟨.ok converted, more, d⟩ =>
    let (result, s) := inner.handle converted s
    (result, ⟨d, calls + more, s⟩)

/-- Runs a step of the inner handler. -/
def within (step : σ → Except ε Unit × σ) (t : Through σ) : Except ε Unit × Through σ :=
  let ⟨d, calls, s⟩ := t
  let (result, s) := step s
  (result, ⟨d, calls, s⟩)

/-- Converts all items with the dictionary and passes them on. -/
def converting (conversion : TermDictionary → α → Outcome (Except DictionaryError β))
    (lift : DictionaryError → ε) (inner : Handler σ ε β) : Handler (Through σ) ε α where
  start := within inner.start
  handle := passOn conversion lift inner
  finish := within inner.finish

/-- Encodes quads for a handler of coded quads. -/
def encoding (lift : DictionaryError → ε) (inner : Handler σ ε CodedQuad) :
    Handler (Through σ) ε Quad :=
  converting TermDictionary.encodeQuad lift inner

/-- Decodes coded quads for a handler of quads. -/
def decoding (lift : DictionaryError → ε) (inner : Handler σ ε Quad) :
    Handler (Through σ) ε CodedQuad :=
  converting TermDictionary.decodeQuad lift inner

/-- A stream through a dictionary as one operation of it: how the stream ended, and the state of the
inner handler. -/
def throughDictionary (h : Handler (Through σ) ε α) (items : List α) (s : σ)
    (d : TermDictionary) : Outcome (Except ε Unit × σ) :=
  let (result, ⟨d, calls, s⟩) := h.run items ⟨d, .none, s⟩
  ⟨(result, s), calls, d⟩

end QuadBase.Stream
