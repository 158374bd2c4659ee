/-!
# Counting calls

A dictionary counts how its calls came by their answers: from the code itself, from a cache, or from
the records.  Each operation says what it counted as a `Calls` value, and whoever keeps counters
adds these up; several dictionaries may share one sum.
-/

namespace QuadBase.Dictionary

/-- How a code or a term was obtained. -/
inductive Resolution where
  /-- From the bits of the code. -/
  | embedded
  /-- From a cache. -/
  | cached
  /-- From the records. -/
  | indexed
  deriving DecidableEq

/-- Numbers of calls by how they were resolved. -/
structure Tally where
  embedded : Nat := 0
  cached : Nat := 0
  indexed : Nat := 0
  deriving DecidableEq

/-- Counted encodings and decodings. -/
structure Calls where
  encode : Tally := {}
  decode : Tally := {}
  deriving DecidableEq

namespace Tally

def one : Resolution → Tally
  | .embedded => { embedded := 1 }
  | .cached => { cached := 1 }
  | .indexed => { indexed := 1 }

def total (t : Tally) : Nat :=
  t.embedded + t.cached + t.indexed

def add (a b : Tally) : Tally :=
  ⟨a.embedded + b.embedded, a.cached + b.cached, a.indexed + b.indexed⟩

instance : Add Tally := ⟨add⟩

/-- The numbers in words, after the total of all calls of the named kind. -/
def text (kind : String) (t : Tally) : String :=
  toString t.total ++ " " ++ kind ++ " calls (" ++ toString t.embedded ++ " embedded, " ++
    toString t.cached ++ " cached, " ++ toString t.indexed ++ " indexed)"

theorem total_add (a b : Tally) : (a + b).total = a.total + b.total := by
  change (add a b).total = _
  simp only [add, total]
  omega

end Tally

namespace Calls

def none : Calls := {}

def encoding (r : Resolution) : Calls :=
  { encode := Tally.one r }

def decoding (r : Resolution) : Calls :=
  { decode := Tally.one r }

def add (a b : Calls) : Calls :=
  ⟨a.encode + b.encode, a.decode + b.decode⟩

instance : Add Calls := ⟨add⟩

def text (c : Calls) : String :=
  c.encode.text "encode" ++ ", " ++ c.decode.text "decode"

end Calls

end QuadBase.Dictionary
