import QuadBase.Index.Probing
import QuadBase.Text.Hash

/-!
# Vocabularies

A vocabulary numbers texts in the order in which they are first seen, from one on.  It holds at most
65534 texts, so that numbers fit into 16 bits and zero can stand for none.  Texts are found through
an open-addressed table whose slots also keep the hash, which is all that is needed to move them
into a larger table.

* `Vocabulary.number?` — the number of a text, `Vocabulary.text?` — the text of a number.
* `Vocabulary.intern` — the number of a text, which is added if it is new and there is room.
-/

namespace QuadBase.Dictionary

open QuadBase.Index

/-- A slot entry of a vocabulary. -/
structure Mark where
  hash : UInt32
  number : UInt16

/-- Texts numbered in order of first sight. -/
structure Vocabulary where
  /-- The texts; number `i` is at position `i - 1`. -/
  texts : Array String
  slots : Array (Slot Mark)

namespace Vocabulary

def capacity : Nat := 65534

def initialSlots : Nat := 64

def empty : Vocabulary := ⟨#[], emptySlots initialSlots⟩

def size (v : Vocabulary) : Nat :=
  v.texts.size

def text? (v : Vocabulary) (number : UInt16) : Option String :=
  if number = 0 then none else v.texts[number.toNat - 1]?

def search (v : Vocabulary) (hash : UInt32) (text : String) : Probe Mark :=
  probe v.slots hash.toNat fun mark => mark.hash == hash && v.text? mark.number == some text

def number? [Text.Hasher] (v : Vocabulary) (text : String) : Option UInt16 :=
  match v.search (Text.hashText text) text with
  | .found _ mark => some mark.number
  | _ => none

/-- Enters all entries into twice as many slots. -/
def regrow (slots : Array (Slot Mark)) : Array (Slot Mark) :=
  slots.foldl (fun grown slot =>
    match slot with
    | .entry mark => place grown mark.hash.toNat mark
    | _ => grown) (emptySlots (2 * slots.size))

/-- Adds a new text, whose search ended at `position`. -/
def add (v : Vocabulary) (hash : UInt32) (text : String) (position : Nat) : UInt16 × Vocabulary :=
  let ⟨texts, slots⟩ := v
  let texts := texts.push text
  let mark : Mark := ⟨hash, UInt16.ofNat texts.size⟩
  if isCrowded texts.size slots.size then
    (mark.number, ⟨texts, place (regrow slots) hash.toNat mark⟩)
  else (mark.number, ⟨texts, slots.setIfInBounds position (.entry mark)⟩)

/-- The number of a text, which is added if it is new.  There is no answer if the text is new and
the vocabulary is full.  The last case is never met: some slot is empty, so the search ends
(`Vocabulary.Sound.search_ne_exhausted`). -/
def intern [Text.Hasher] (v : Vocabulary) (text : String) : Option UInt16 × Vocabulary :=
  let hash := Text.hashText text
  match v.search hash text with
  | .found _ mark => (some mark.number, v)
  | .vacant position =>
    if capacity ≤ v.size then (none, v)
    else
      let (number, v) := v.add hash text position
      (some number, v)
  | .exhausted => (none, v)

/-- The vocabulary that numbers the given texts in order. -/
def ofList [Text.Hasher] (texts : List String) : Vocabulary :=
  texts.foldl (fun v text => (v.intern text).2) empty

end Vocabulary

end QuadBase.Dictionary
