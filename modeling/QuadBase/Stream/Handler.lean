/-!
# Streams of items

A handler receives a stream: a start, the items one by one, and an end.  It keeps a state and may
refuse any of these.  The first refusal aborts the stream, and the state is what had been reached by
then.

* `Handler.run` — sends a whole stream to a handler.
* `Handler.collect` — the handler that keeps what it receives.
-/

namespace QuadBase.Stream

/-- A receiver of a stream of `α`, with state `σ` and refusals `ε`. -/
structure Handler (σ ε α : Type) where
  start : σ → Except ε Unit × σ := fun s => (.ok (), s)
  handle : α → σ → Except ε Unit × σ
  finish : σ → Except ε Unit × σ := fun s => (.ok (), s)

namespace Handler

variable {σ ε α : Type}

/-- Sends items until one is refused. -/
def handleAll (h : Handler σ ε α) : List α → σ → Except ε Unit × σ
  | [], s => (.ok (), s)
  | item :: items, s =>
    match h.handle item s with
    | (.error e, s) => (.error e, s)
    | (.ok (), s) => h.handleAll items s

/-- Sends a whole stream: the start, the items, the end. -/
def run (h : Handler σ ε α) (items : List α) (s : σ) : Except ε Unit × σ :=
  match h.start s with
  | (.error e, s) => (.error e, s)
  | (.ok (), s) =>
    match h.handleAll items s with
    | (.error e, s) => (.error e, s)
    | (.ok (), s) => h.finish s

/-- Keeps all items in order. -/
def collect : Handler (Array α) ε α where
  handle item kept := (.ok (), kept.push item)

end Handler

end QuadBase.Stream
