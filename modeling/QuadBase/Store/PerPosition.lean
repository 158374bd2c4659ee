import QuadBase.Rdf.Quad

/-!
# One value for each position

The four components of a quad are indexed alike, so much of a store comes in fours.
-/

namespace QuadBase.Store

open QuadBase.Rdf

/-- A value for each of the four positions. -/
structure PerPosition (α : Type) where
  subject : α
  predicate : α
  object : α
  graph : α
  deriving DecidableEq

namespace PerPosition

variable {α β : Type}

def all (a : α) : PerPosition α :=
  ⟨a, a, a, a⟩

def get (v : PerPosition α) : Position → α
  | .subject => v.subject
  | .predicate => v.predicate
  | .object => v.object
  | .graph => v.graph

def modify (v : PerPosition α) (p : Position) (f : α → α) : PerPosition α :=
  match p with
  | .subject => { v with subject := f v.subject }
  | .predicate => { v with predicate := f v.predicate }
  | .object => { v with object := f v.object }
  | .graph => { v with graph := f v.graph }

def set (v : PerPosition α) (p : Position) (a : α) : PerPosition α :=
  v.modify p fun _ => a

/-- The values made from the values of two. -/
def zipWith {γ : Type} (f : α → β → γ) (v : PerPosition α) (w : PerPosition β) : PerPosition γ :=
  ⟨f v.subject w.subject, f v.predicate w.predicate, f v.object w.object, f v.graph w.graph⟩

/-- The positions in order, with their values. -/
def toList (v : PerPosition α) : List (Position × α) :=
  [(.subject, v.subject), (.predicate, v.predicate), (.object, v.object), (.graph, v.graph)]

instance [Inhabited α] : Inhabited (PerPosition α) := ⟨all default⟩

@[ext] theorem ext_get {v w : PerPosition α} (h : ∀ p, v.get p = w.get p) : v = w := by
  cases v
  cases w
  simpa [get] using And.intro (h .subject)
    (And.intro (h .predicate) (And.intro (h .object) (h .graph)))

@[simp] theorem get_all (a : α) (p : Position) : (all a).get p = a := by
  cases p <;> rfl

theorem get_modify (v : PerPosition α) (p q : Position) (f : α → α) :
    (v.modify p f).get q = if q = p then f (v.get q) else v.get q := by
  cases p <;> cases q <;> rfl

theorem get_set (v : PerPosition α) (p q : Position) (a : α) :
    (v.set p a).get q = if q = p then a else v.get q :=
  get_modify v p q _

@[simp] theorem get_zipWith {γ : Type} (f : α → β → γ) (v : PerPosition α) (w : PerPosition β)
    (p : Position) : (zipWith f v w).get p = f (v.get p) (w.get p) := by
  cases p <;> rfl

theorem mem_toList {v : PerPosition α} {p : Position} {a : α} :
    (p, a) ∈ v.toList ↔ v.get p = a := by
  cases p <;> simp [toList, get, eq_comm]

end PerPosition

end QuadBase.Store
