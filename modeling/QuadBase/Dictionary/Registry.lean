import QuadBase.Dictionary.Quads
import QuadBase.Dictionary.Stats

/-!
# Dictionaries with shared counters

A registry holds any number of dictionaries, each with the number of the *meter* on which its calls
are counted.  Several dictionaries may share a meter.  A fork gets a meter of its own.

* `Registry.create`, `Registry.fork` — add a dictionary and tell its number.
* `Registry.call` — runs an operation of one dictionary and counts what it says.
-/

namespace QuadBase.Dictionary

/-- Numbered dictionaries and the meters on which they count. -/
structure Registry where
  dictionaries : Array TermDictionary := #[]
  /-- The meter of each dictionary. -/
  meterOf : Array Nat := #[]
  meters : Array Calls := #[]

namespace Registry

variable [Text.Hasher]

/-- The number of the next dictionary. -/
def size (r : Registry) : Nat :=
  r.dictionaries.size

/-- Adds a dictionary with a meter of its own. -/
def add (r : Registry) (d : TermDictionary) : Registry :=
  { dictionaries := r.dictionaries.push d
    meterOf := r.meterOf.push r.meters.size
    meters := r.meters.push .none }

/-- Adds a dictionary that counts on the meter of another one. -/
def addSharing (r : Registry) (d : TermDictionary) (other : Nat) : Registry :=
  { r with
    dictionaries := r.dictionaries.push d
    meterOf := r.meterOf.push (r.meterOf.getD other 0) }

/-- Adds an empty dictionary, on a meter of its own or on that of another dictionary. -/
def create (r : Registry) (config : Config) (shared : Option Nat) : Registry :=
  match shared with
  | none => r.add (TermDictionary.create config)
  | some other => r.addSharing (TermDictionary.create config) other

def dictionary? (r : Registry) (number : Nat) : Option TermDictionary :=
  r.dictionaries[number]?

/-- The calls counted on the meter of a dictionary. -/
def callsOf (r : Registry) (number : Nat) : Calls :=
  (r.meterOf[number]?.bind (r.meters[·]?)).getD .none

def fork (r : Registry) (number : Nat) : Registry :=
  match r.dictionary? number with
  | none => r
  | some d => r.add d.fork

/-- Takes a dictionary out and leaves a stand-in, so that nobody else holds on to it. -/
@[noinline] def takeOut (dictionaries : Array TermDictionary) (number : Nat) :
    TermDictionary × Array TermDictionary :=
  (dictionaries.getD number default, dictionaries.setIfInBounds number default)

/-- Runs an operation of one dictionary and counts its calls.  There is no answer if there is no
such dictionary. -/
def call {ρ : Type} (r : Registry) (number : Nat) (operation : TermDictionary → Outcome ρ) :
    Option ρ × Registry :=
  let ⟨dictionaries, meterOf, meters⟩ := r
  if number < dictionaries.size then
    let (d, dictionaries) := takeOut dictionaries number
    let ⟨result, calls, d⟩ := operation d
    let meters := meters.modify (meterOf.getD number 0) (· + calls)
    (some result, ⟨dictionaries.setIfInBounds number d, meterOf, meters⟩)
  else (none, ⟨dictionaries, meterOf, meters⟩)

end Registry

end QuadBase.Dictionary
