import QuadBase.Proofs.Store.Iteration
import QuadBase.Store.Query

/-!
# Projections and the only object

A projection walks over the quads of a pattern and gives one of their components, each value when it
is met for the first time.  The questions for *the* object of a pattern take at most two values from
such a walk: where there is a second one, the object is not the only one.

The order of the walk depends on the past of the store, and so does which two objects are named if
there are several.  Whether there are none, one or several does not.

* `YieldsNew` — a walk that leaves out what it has given before, and `Yields.yieldsNew` — every walk
  can be made such a one.
* `objectValue_eq_onlyOf` — the answer is that of the first two values of the walk.
* `Sole` — what the five questions answer if there is one object.
* `reached_projections` — the result for reachable stores.
-/

namespace QuadBase.Store

open QuadBase.Rdf QuadStore

/-! ## First occurrences -/

section Lists

variable {α : Type} [DecidableEq α]

lemma head?_eraseDups (xs : List α) : xs.eraseDups.head? = xs.head? := by
  cases xs with
  | nil => rfl
  | cons x xs => rw [List.eraseDups_cons, List.head?_cons, List.head?_cons]

/-- A value that has not been seen is given, and counts as seen from then on. -/
lemma eraseDups_filter_cons {seen : Finset α} {x : α} (hx : x ∉ seen) (xs : List α) :
    ((x :: xs).filter (· ∉ seen)).eraseDups =
      x :: (xs.filter (· ∉ insert x seen)).eraseDups := by
  rw [List.filter_cons_of_pos (by simpa using hx), List.eraseDups_cons, List.filter_filter]
  congr 2
  refine List.filter_congr fun y _ => ?_
  rw [Bool.eq_iff_iff]
  simp [Finset.mem_insert, not_or]

end Lists

variable [Text.Hasher] {α : Type}

/-- Moving a cursor to its end gives the values of a component, each the first time only: those of
`seen` have been given before. -/
inductive YieldsNew [DecidableEq α] (component : Quad → α) :
    Finset α → Cursor → List α → Cursor → Prop where
  | done {seen : Finset α} {c : Cursor} (ends : c.next.1 = none) :
      YieldsNew component seen c [] c.next.2
  | skip {seen : Finset α} {c c' : Cursor} {q : Quad} {xs : List α} (gives : c.next.1 = some q)
      (old : component q ∈ seen) (rest : YieldsNew component seen c.next.2 xs c') :
      YieldsNew component seen c xs c'
  | step {seen : Finset α} {c c' : Cursor} {q : Quad} {xs : List α} (gives : c.next.1 = some q)
      (new : component q ∉ seen)
      (rest : YieldsNew component (insert (component q) seen) c.next.2 xs c') :
      YieldsNew component seen c (component q :: xs) c'

omit [Text.Hasher] in
/-- **Every walk can leave out what it has given before.**  It reads the store and leaves it
alone. -/
lemma Yields.yieldsNew [DecidableEq α] {c : Cursor} {qs : List Quad} (h : Yields c qs)
    (component : Quad → α) (seen : Finset α) :
    ∃ c', YieldsNew component seen c ((qs.map component).filter (· ∉ seen)).eraseDups c' ∧
      c'.store = c.store := by
  induction h generalizing seen with
  | @done c ends => exact ⟨c.next.2, .done ends, rfl⟩
  | @step c q qs gives _ ih =>
    rw [List.map_cons]
    by_cases hseen : component q ∈ seen
    · obtain ⟨c', hrest, hstore⟩ := ih seen
      rw [List.filter_cons_of_neg (by simpa using hseen)]
      exact ⟨c', .skip gives hseen hrest, hstore⟩
    · obtain ⟨c', hrest, hstore⟩ := ih (insert (component q) seen)
      rw [eraseDups_filter_cons hseen]
      exact ⟨c', .step gives hseen hrest, hstore⟩

namespace QuadStore

variable {s : QuadStore} {p : Pattern}

/-! ## Projections -/

/-- A list has the values that a component has in the quads of a pattern, each once, and a walk over
the store gives them without changing it. -/
structure Projects [DecidableEq α] (s : QuadStore) (p : Pattern) (component : Quad → α)
    (xs : List α) : Prop where
  nodup : xs.Nodup
  mem_iff : ∀ x, x ∈ xs ↔ ∃ q, s.contains q = true ∧ p.admits q = true ∧ component q = x
  walk : ∃ ys c, YieldsNew component ∅ (Cursor.create s p) ys c ∧ ys.Perm xs ∧ c.store = s

/-- The values in the order of the walk. -/
def firsts [DecidableEq α] (s : QuadStore) (p : Pattern) (component : Quad → α) : List α :=
  ((s.quads p).map component).eraseDups

lemma nodup_firsts [DecidableEq α] (s : QuadStore) (p : Pattern) (component : Quad → α) :
    (s.firsts p component).Nodup :=
  nodup_eraseDups _

lemma Sound.mem_firsts [DecidableEq α] (h : s.Sound) {component : Quad → α} {x : α} :
    x ∈ s.firsts p component ↔
      ∃ q, s.contains q = true ∧ p.admits q = true ∧ component q = x := by
  rw [firsts, List.mem_eraseDups, List.mem_map]
  refine exists_congr fun q => ?_
  rw [h.mem_quads, h.contains_iff, mem_contents, and_assoc]

/-- A walk gives the values in this order, and leaves the store alone. -/
lemma Sound.walk_firsts [DecidableEq α] (h : s.Sound) (p : Pattern) (component : Quad → α) :
    ∃ c, YieldsNew component ∅ (Cursor.create s p) (s.firsts p component) c ∧ c.store = s := by
  obtain ⟨c, hwalk, hstore⟩ := (yields_quads h p).yieldsNew component ∅
  have hfirsts : (((s.quads p).map component).filter (· ∉ (∅ : Finset α))).eraseDups =
      s.firsts p component := by
    simp [firsts]
  rw [hfirsts] at hwalk
  exact ⟨c, hwalk, hstore⟩

/-- **A projection gives the values of its component.** -/
lemma Sound.projects [DecidableEq α] [Hashable α] (h : s.Sound) (p : Pattern)
    (component : Quad → α) : Projects s p component (distinct ((s.quads p).map component)) := by
  have hmem : ∀ x, x ∈ distinct ((s.quads p).map component) ↔ x ∈ s.firsts p component := by
    intro x
    rw [mem_distinct, firsts, List.mem_eraseDups]
  obtain ⟨c, hwalk, hstore⟩ := h.walk_firsts p component
  refine ⟨distinct_nodup _, fun x => (hmem x).trans h.mem_firsts, _, c, hwalk, ?_, hstore⟩
  rw [List.perm_ext_iff_of_nodup (s.nodup_firsts p component) (distinct_nodup _)]
  exact fun x => (hmem x).symm

/-! ## The only object -/

omit [Text.Hasher] in
/-- The answer that the first two of some distinct objects decide. -/
def onlyOf : List Term → Except StoreError (Option Term)
  | [] => .ok none
  | [only] => .ok (some only)
  | first :: second :: _ => .error (.ambiguousObject first.text second.text)

/-- **The only object is decided by the first two objects that a walk gives.** -/
lemma objectValue_eq_onlyOf (s : QuadStore) (p : Pattern) :
    s.objectValue p = onlyOf (s.firsts p Quad.object) := by
  rw [objectValue, firsts]
  cases (s.quads p).map Quad.object with
  | nil => rfl
  | cons first rest =>
    have hsecond : rest.find? (· != first) =
        (rest.filter fun object => !object == first).eraseDups.head? := by
      rw [head?_eraseDups, List.head?_filter]
      rfl
    dsimp only
    rw [List.eraseDups_cons, hsecond]
    cases (rest.filter fun object => !object == first).eraseDups with
    | nil => rfl
    | cons second others => rfl

/-- The five questions for the only object have one answer that names no object. -/
structure Uniform (s : QuadStore) (p : Pattern)
    (answer : ∀ α : Type, Except StoreError (Option α)) : Prop where
  value : s.objectValue p = answer Term
  string : s.objectString p = answer String
  literal : s.objectLiteral p = answer Literal
  resource : s.objectResource p = answer Resource
  iri : s.objectIri p = answer Iri

omit [Text.Hasher] in
/-- The answer is an object, seen as what is asked for, if it is of that kind.  Otherwise it is an
error that names the kind and the object. -/
structure Converted (answer : Except StoreError (Option α)) (expected : TermClass)
    (embed : α → Term) (object : Term) : Prop where
  of_kind : ∀ a, answer = .ok (some a) ↔ embed a = object
  otherwise : (∀ a, embed a ≠ object) →
    answer = .error (.unexpectedObject expected object.text)

/-- What the five questions answer if there is one object. -/
structure Sole (s : QuadStore) (p : Pattern) (object : Term) : Prop where
  value : s.objectValue p = .ok (some object)
  string : s.objectString p = .ok (some object.content)
  literal : Converted (s.objectLiteral p) .literal Term.literal object
  resource : Converted (s.objectResource p) .resource Term.resource object
  iri : Converted (s.objectIri p) .iri Term.iri object

lemma uniform_none (h : s.objectValue p = .ok none) : Uniform s p fun _ => .ok none := by
  constructor <;> simp only [objectString, objectLiteral, objectResource, objectIri, objectAs, h,
    Except.map, Option.map_none]

lemma uniform_error {e : StoreError} (h : s.objectValue p = .error e) :
    Uniform s p fun _ => .error e := by
  constructor <;> simp only [objectString, objectLiteral, objectResource, objectIri, objectAs, h,
    Except.map]

/-- A conversion that undoes an embedding finds the objects of its kind. -/
lemma objectAs_converted {object : Term} (h : s.objectValue p = .ok (some object))
    (expected : TermClass) {convert : Term → Option α} {embed : α → Term}
    (hconvert : ∀ a, convert object = some a ↔ embed a = object) :
    Converted (s.objectAs p expected convert) expected embed object := by
  rw [objectAs, h]
  dsimp only
  cases hobject : convert object with
  | none =>
    refine ⟨fun a => ?_, fun _ => rfl⟩
    rw [← hconvert, hobject]
    simp
  | some a =>
    refine ⟨fun b => ?_, fun hother => absurd ((hconvert a).1 hobject) (hother a)⟩
    rw [← hconvert, hobject, Except.ok.injEq]

lemma sole_of_objectValue {object : Term} (h : s.objectValue p = .ok (some object)) :
    Sole s p object where
  value := h
  string := by
    rw [objectString, h]
    rfl
  literal := objectAs_converted h .literal fun a => by cases object <;> simp [eq_comm]
  resource := objectAs_converted h .resource fun a => by cases object <;> simp [eq_comm]
  iri := objectAs_converted h .iri fun a => by
    cases object with
    | resource r => cases r <;> simp [Term.iri, eq_comm]
    | literal l => simp [Term.iri]

/-- **None, several or one**: what the five questions answer. -/
lemma object_answers (s : QuadStore) (p : Pattern) :
    ((s.objects p).toFinset = ∅ → Uniform s p fun _ => .ok none) ∧
    (1 < (s.objects p).toFinset.card → ∃ first ∈ s.objects p, ∃ second ∈ s.objects p,
      first ≠ second ∧
        Uniform s p fun _ => .error (.ambiguousObject first.text second.text)) ∧
    ∀ object, (s.objects p).toFinset = {object} → Sole s p object := by
  have hnodup := s.nodup_firsts p Quad.object
  have hset : (s.objects p).toFinset = (s.firsts p Quad.object).toFinset := by
    ext object
    rw [List.mem_toFinset, List.mem_toFinset, objects, mem_distinct, firsts, List.mem_eraseDups]
  have hmem : ∀ object, object ∈ s.firsts p Quad.object → object ∈ s.objects p := by
    intro object hobject
    rwa [← List.mem_toFinset, hset, List.mem_toFinset]
  have hcard := List.toFinset_card_of_nodup hnodup
  have hvalue := objectValue_eq_onlyOf s p
  rw [hset]
  cases hfirsts : s.firsts p Quad.object with
  | nil =>
    rw [hfirsts] at hvalue
    refine ⟨fun _ => uniform_none hvalue, fun hmany => ?_, fun object hone => ?_⟩
    · exact absurd hmany (Nat.not_lt_zero 1)
    · exact absurd hone.symm (Finset.singleton_ne_empty object)
  | cons first rest =>
    rw [hfirsts] at hvalue hcard hnodup hmem
    refine ⟨fun hnone => ?_, ?_⟩
    · exact absurd hnone (List.toFinset_nonempty_iff _ |>.2 (List.cons_ne_nil _ _)).ne_empty
    · cases rest with
      | nil =>
        refine ⟨fun hmany => absurd hmany (Nat.lt_irrefl 1), fun object hone => ?_⟩
        obtain rfl : first = object := by simpa using hone
        exact sole_of_objectValue hvalue
      | cons second others =>
        refine ⟨fun _ => ⟨first, hmem _ List.mem_cons_self, second,
          hmem _ (List.mem_cons_of_mem _ List.mem_cons_self), ?_, uniform_error hvalue⟩,
          fun object hone => ?_⟩
        · rintro rfl
          exact (List.nodup_cons.1 hnodup).1 List.mem_cons_self
        · rw [hone, Finset.card_singleton] at hcard
          cases hcard

end QuadStore

/-- **Projections are exact, and so are the answers to the questions for the only object.**  In every
reachable store the four projections of a pattern give the values in their position, each once.  If
there is no object, all five questions answer so; if there are several, all five name two different
ones; and if there is one, it is the answer to every question that it fits.  The first two values of
a walk over the objects decide, whatever its order, and the walk leaves the store as it was. -/
theorem reached_projections (config : Config) (operations : List Operation) (p : Pattern) :
    let s := reached config operations
    let O := (s.objects p).toFinset
    (Projects s p Quad.subject (s.subjects p) ∧ Projects s p Quad.predicate (s.predicates p) ∧
      Projects s p Quad.object (s.objects p) ∧ Projects s p Quad.graph (s.graphs p)) ∧
    (∃ ys c, YieldsNew Quad.object ∅ (Cursor.create s p) ys c ∧ c.store = s ∧
      s.objectValue p = onlyOf ys) ∧
    (O = ∅ → Uniform s p fun _ => .ok none) ∧
    (1 < O.card → ∃ first ∈ O, ∃ second ∈ O, first ≠ second ∧
      Uniform s p fun _ => .error (.ambiguousObject first.text second.text)) ∧
    ∀ object, O = {object} → Sole s p object := by
  have h := reached_sound config operations
  obtain ⟨hnone, hseveral, hone⟩ := object_answers (reached config operations) p
  obtain ⟨c, hwalk, hstore⟩ := h.walk_firsts p Quad.object
  simp only [List.mem_toFinset]
  exact ⟨⟨h.projects p _, h.projects p _, h.projects p _, h.projects p _⟩,
    ⟨_, c, hwalk, hstore, objectValue_eq_onlyOf _ p⟩, hnone, hseveral, hone⟩

end QuadBase.Store
