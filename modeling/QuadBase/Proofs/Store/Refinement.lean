import QuadBase.Proofs.Store.Edits

/-!
# A store is a set of quads

The edits of a store, run one after the other, against the same edits of a mathematical set.
`Edit.run` is what the store does and `Edit.apply` what the set does; `Edit.run_leads` says that one
edit of a sound store does to its quads what it does to the set.

`runAll_refines` is the result for whole histories: **unless the store runs out of numbers, it
answers every edit as the set does**, and afterwards it contains the members of the set and knows
how many there are.
-/

namespace QuadBase.Store

open QuadBase.Rdf QuadStore

/-- A change of the quads of a store. -/
inductive Edit where
  | add (subject : Resource) (predicate : Iri) (object : Term) (graphs : List GraphName)
  | insert (q : Quad)
  | extend (qs : List Quad)
  | remove (pattern : Pattern)
  | removeQuad (q : Quad)
  | clear

/-- The answer of an edit. -/
inductive Reply where
  /-- Whether something changed. -/
  | flag (changed : Bool)
  /-- How many quads were new. -/
  | number (count : Nat)
  | done
  deriving DecidableEq

namespace Edit

section Refines

variable [Text.Hasher]

/-- An edit of a store. -/
def run (s : QuadStore) : Edit → Change Reply
  | .add subject predicate object graphs =>
    andThen (s.add subject predicate object graphs) fun changed s => (.ok (.flag changed), s)
  | .insert q => andThen (s.insert q) fun changed s => (.ok (.flag changed), s)
  | .extend qs => andThen (s.extend qs) fun count s => (.ok (.number count), s)
  | .remove pattern => (.ok (.flag (s.remove pattern).1), (s.remove pattern).2)
  | .removeQuad q => (.ok (.flag (s.removeQuad q).1), (s.removeQuad q).2)
  | .clear => (.ok .done, s.clear)

omit [Text.Hasher] in
/-- The same edit of a set of quads. -/
def apply (Q : Finset Quad) : Edit → Reply × Finset Quad
  | .add subject predicate object graphs =>
    let new := inGraphs subject predicate object
      (if graphs.isEmpty then [.defaultGraph] else graphs)
    (.flag (decide (∃ q ∈ new, q ∉ Q)), Q ∪ new)
  | .insert q => (.flag (decide (q ∉ Q)), Q ∪ {q})
  | .extend qs => (.number (qs.toFinset \ Q).card, Q ∪ qs.toFinset)
  | .remove pattern =>
    (.flag (decide (∃ q ∈ Q, pattern.admits q = true)), Q.filter fun q => ¬ pattern.admits q = true)
  | .removeQuad q => (.flag (decide (q ∈ Q)), Q.erase q)
  | .clear => (.done, ∅)

/-- **An edit of a store is an edit of its set of quads**, unless a stock is full. -/
theorem run_leads {s : QuadStore} (h : s.Sound) (e : Edit) :
    Leads (e.run s) Refused fun reply s' =>
      s'.Sound ∧ reply = (e.apply s.contents).1 ∧ s'.contents = (e.apply s.contents).2 := by
  cases e with
  | add subject predicate object graphs =>
    refine (h.add subject predicate object graphs).andThen fun changed s' ⟨hgains, hchanged⟩ =>
      ⟨hgains.sound, ?_, hgains.contents_eq⟩
    rw [hchanged, apply]
    simp only [Finset.not_subset]
  | insert q =>
    refine (h.insert q).andThen fun changed s' ⟨hgains, hchanged⟩ =>
      ⟨hgains.sound, congrArg Reply.flag hchanged, hgains.contents_eq⟩
  | extend qs =>
    refine (h.extendFrom 0 qs).andThen fun count s' ⟨hgains, hcount⟩ =>
      ⟨hgains.sound, ?_, hgains.contents_eq⟩
    rw [hcount, Nat.zero_add, apply]
  | remove pattern =>
    obtain ⟨hsound, hcontents, hanswer⟩ := h.remove pattern
    exact ⟨hsound, congrArg Reply.flag hanswer, hcontents⟩
  | removeQuad q =>
    obtain ⟨hsound, hcontents, hanswer⟩ := h.removeQuad q
    exact ⟨hsound, congrArg Reply.flag hanswer, hcontents⟩
  | clear => exact ⟨h.clear.1, rfl, h.clear.2⟩

lemma run_sound {s : QuadStore} (h : s.Sound) (e : Edit) : (e.run s).2.Sound := by
  have hleads := run_leads h e
  cases hrun : e.run s with
  | mk answer s' =>
    rw [hrun] at hleads
    cases answer with
    | error error => exact hleads.2
    | ok reply => exact hleads.1

/-! ## Histories -/

/-- Edits of a store one after the other: all answers, and the store at the end. -/
def runAll (s : QuadStore) : List Edit → List (Except StoreError Reply) × QuadStore
  | [] => ([], s)
  | e :: es =>
    let (answer, s) := e.run s
    let (answers, s) := runAll s es
    (answer :: answers, s)

omit [Text.Hasher] in
/-- The same edits of a set of quads. -/
def applyAll (Q : Finset Quad) : List Edit → List Reply × Finset Quad
  | [] => ([], Q)
  | e :: es =>
    let (reply, Q) := e.apply Q
    let (replies, Q) := applyAll Q es
    (reply :: replies, Q)

/-- From any sound store on, a history does to the store what it does to its set of quads. -/
lemma runAll_leads {s : QuadStore} (h : s.Sound) {edits : List Edit}
    (hroom : ∀ stock limit, .error (.capacityExceeded stock limit) ∉ (runAll s edits).1) :
    (runAll s edits).2.Sound ∧
      (runAll s edits).1 = (applyAll s.contents edits).1.map .ok ∧
      (runAll s edits).2.contents = (applyAll s.contents edits).2 := by
  induction edits generalizing s with
  | nil => exact ⟨h, rfl, rfl⟩
  | cons e edits ih =>
    have hleads := run_leads h e
    rw [runAll] at hroom ⊢
    rw [applyAll]
    cases hrun : e.run s with
    | mk answer s' =>
      rw [hrun] at hleads hroom
      cases answer with
      | error error =>
        obtain ⟨⟨stock, limit, rfl⟩, -⟩ := hleads
        exact absurd List.mem_cons_self (hroom stock limit)
      | ok reply =>
        obtain ⟨hsound, hreply, hcontents⟩ := hleads
        obtain ⟨hsound', hreplies, hcontents'⟩ := ih hsound fun stock limit hmem =>
          hroom stock limit (List.mem_cons_of_mem _ hmem)
        rw [hcontents] at hreplies hcontents'
        refine ⟨hsound', ?_, hcontents'⟩
        simp only [hreplies, hreply, List.map_cons]

/-- **A store refines a set of quads.**  A history without a failure for lack of room answers every
edit as the set does.  Afterwards the store contains the members of the set and no other quads, and
it has its size.  As the history is arbitrary, this is so after every step. -/
theorem runAll_refines (config : Config) (edits : List Edit)
    (hroom : ∀ stock limit,
      .error (.capacityExceeded stock limit) ∉ (runAll (create config) edits).1) :
    let s := (runAll (create config) edits).2
    let Q := (applyAll ∅ edits).2
    (runAll (create config) edits).1 = (applyAll ∅ edits).1.map .ok ∧
      (∀ q, s.contains q = true ↔ q ∈ Q) ∧ s.size = Q.card ∧ (s.isEmpty = true ↔ Q = ∅) := by
  have hempty : (create config).contents = ∅ := rfl
  obtain ⟨hsound, hreplies, hcontents⟩ := runAll_leads (create_sound config) hroom
  rw [hempty] at hreplies hcontents
  refine ⟨hreplies, ?_, ?_, ?_⟩
  · intro q
    rw [hsound.contains_iff, ← mem_contents, hcontents]
  · rw [hsound.size_eq, hcontents]
  · rw [hsound.isEmpty_iff, hcontents]

end Refines

/-- A history that puts a quad in twice, takes it out by a pattern, and puts it in twice again. -/
def putTwice : List Edit :=
  let q : Quad := ⟨.blank "a", ⟨"p"⟩, .blank "b", .named (.blank "c")⟩
  [.insert q, .insert q, .remove { object := some (.blank "b") }, .extend [q, q]]

theorem runAll_refines_putTwice :
    let s := (runAll (create ⟨0, 0⟩) putTwice).2
    (runAll (create ⟨0, 0⟩) putTwice).1 =
        [.ok (.flag true), .ok (.flag false), .ok (.flag true), .ok (.number 1)] ∧
      (∀ q, s.contains q = true ↔ q ∈ (applyAll ∅ putTwice).2) ∧
      s.size = (applyAll ∅ putTwice).2.card := by
  have hanswers : (runAll (create ⟨0, 0⟩) putTwice).1 =
      [.ok (.flag true), .ok (.flag false), .ok (.flag true), .ok (.number 1)] := by
    decide +kernel
  obtain ⟨-, hcontains, hsize, -⟩ := runAll_refines ⟨0, 0⟩ putTwice fun stock limit hmem => by
    simp [hanswers] at hmem
  exact ⟨hanswers, hcontains, hsize⟩

end Edit

end QuadBase.Store
