import QuadBase.Proofs.Store.Reachable

/-!
# Walking over the quads of a pattern

The quads of a pattern come one by one from a walk, which only keeps where it will read next.
`Remains` says which records a step of a leg still has to come, `Ahead` says it of a whole walk.
Each move gives the first of them and leaves the others (`Ahead.advance`), so a walk that is moved
on until it ends has given all of them, in order, and nothing else.

* `Yields` — moving a cursor on until it ends gives the quads of a list.
* `yields_quads` — a new cursor yields the quads of its pattern.
* `reached_yields` — **pattern queries are exact** in every reachable store.
-/

namespace QuadBase.Store

open QuadBase.Rdf

/-! ## The rest of a leg -/

namespace Walk

variable {leg : Leg} {s : Statements} {step : Step} {ids : List Nat}

/-- The records of a leg that are still to come from a step on. -/
inductive Remains (leg : Leg) (s : Statements) : Step → List Nat → Prop where
  | start : Remains leg s .start (leg.matching s)
  | scan (next : Nat) : Remains leg s (.scan next)
      ((List.range' next (s.records.size - next)).filter (leg.admitsAt s.records))
  | chain {p : Position} {next : Option Nat} {l : List Nat}
      (linked : Statements.Linked (Statements.nextOf s.records p) next l)
      (length_le : l.length ≤ s.records.size) :
      Remains leg s (.chain p next) (l.filter (leg.admitsAt s.records))

/-- The answer of a leg is the first of the records to come, and the step after it has the rest. -/
def Gives (leg : Leg) (s : Statements) (answer : Option (Nat × Step)) : List Nat → Prop
  | [] => answer = none
  | id :: ids => ∃ step, answer = some (id, step) ∧ Remains leg s step ids

lemma seekScan_gives {count next : Nat} (hcount : next + count = s.records.size) :
    Gives leg s (seekScan leg s.records count next)
      ((List.range' next count).filter (leg.admitsAt s.records)) := by
  induction count generalizing next with
  | zero => rfl
  | succ count ih =>
    rw [seekScan, List.range'_succ]
    cases hadmits : leg.admitsAt s.records next with
    | true =>
      rw [List.filter_cons_of_pos hadmits]
      refine ⟨.scan (next + 1), rfl, ?_⟩
      rw [show count = s.records.size - (next + 1) by omega]
      exact .scan (next + 1)
    | false =>
      rw [List.filter_cons_of_neg (by simp [hadmits])]
      exact ih (by omega)

lemma seekChain_gives {p : Position} {steps : Nat} {current : Option Nat} {l : List Nat}
    (hl : Statements.Linked (Statements.nextOf s.records p) current l) (hsteps : l.length ≤ steps)
    (hlength : l.length ≤ s.records.size) :
    Gives leg s (seekChain leg s.records p steps current) (l.filter (leg.admitsAt s.records)) := by
  induction hl generalizing steps with
  | nil => cases steps <;> rfl
  | @cons id l rest ih =>
    cases steps with
    | zero => cases hsteps
    | succ steps =>
      have hrest : l.length ≤ s.records.size := Nat.le_of_succ_le hlength
      rw [seekChain]
      cases hadmits : leg.admitsAt s.records id with
      | true =>
        rw [List.filter_cons_of_pos hadmits]
        exact ⟨_, rfl, .chain rest hrest⟩
      | false =>
        rw [List.filter_cons_of_neg (by simp [hadmits])]
        exact ih (Nat.le_of_succ_le_succ hsteps) hrest

variable [Text.Hasher]

/-- A way that the leg offers leads to the records that it visits. -/
lemma begin_remains (h : s.Sound) {access : Access} (hoffers : leg.Offers s access) :
    Remains leg s (begin access) ((Leg.visited s access).filter (leg.admitsAt s.records)) := by
  cases hoffers with
  | scan =>
    rw [Leg.visited, List.range_eq_range']
    exact .scan 0
  | @chain p handle =>
    have hl := h.isChain handle p
    rw [Leg.visited]
    exact .chain hl.linked (h.length_le hl)

/-- **A leg gives its records one by one.** -/
theorem Remains.seek (h : s.Sound) (hremains : Remains leg s step ids) :
    Gives leg s (Walk.seek leg s step) ids := by
  have hbegun : ∀ {step ids}, step ≠ .start → Remains leg s step ids →
      Gives leg s (seek.seekBegun leg s step) ids := by
    intro step ids hstart hremains
    cases hremains with
    | start => exact absurd rfl hstart
    | scan next =>
      rw [seek.seekBegun]
      by_cases hle : next ≤ s.records.size
      · exact seekScan_gives (Nat.add_sub_cancel' hle)
      · rw [Nat.sub_eq_zero_of_le (Nat.le_of_not_le hle)]
        rfl
    | chain linked length_le => exact seekChain_gives linked length_le length_le
  cases hremains with
  | start =>
    refine hbegun ?_ (begin_remains h (leg.offers_access s))
    cases leg.access s with
    | scan => exact Step.noConfusion
    | chain => exact Step.noConfusion
  | scan next => exact hbegun Step.noConfusion (.scan next)
  | chain linked length_le => exact hbegun Step.noConfusion (.chain linked length_le)

/-! ## The rest of a walk -/

/-- The records that a walk still has to come: the rest of the leg under way, and those of the legs
behind it. -/
inductive Ahead (s : Statements) : Walk → List Nat → Prop where
  | nil {step : Step} : Ahead s ⟨[], step⟩ []
  | cons {leg : Leg} {legs : List Leg} {step : Step} {ids : List Nat}
      (remains : Remains leg s step ids) :
      Ahead s ⟨leg :: legs, step⟩ (ids ++ matchingAll legs s)

omit [Text.Hasher] in
lemma create_ahead (legs : List Leg) (s : Statements) :
    Ahead s (create legs) (matchingAll legs s) := by
  cases legs with
  | nil => exact .nil
  | cons leg legs => exact .cons .start

/-- **A move gives the first record to come and leaves the others.**  If there is none, the walk
ends. -/
theorem Ahead.advance (h : s.Sound) {w : Walk} (hahead : Ahead s w ids) :
    (w.advance s).1 = ids.head? ∧ Ahead s (w.advance s).2 ids.tail := by
  obtain ⟨legs, step⟩ := w
  rw [Walk.advance]
  dsimp only
  induction legs generalizing step ids with
  | nil =>
    cases hahead with
    | nil => exact ⟨rfl, .nil⟩
  | cons leg legs ih =>
    cases hahead with
    | @cons _ _ _ rest remains =>
      have hgives := remains.seek h
      cases rest with
      | nil =>
        rw [Gives] at hgives
        rw [advanceFrom, hgives]
        exact ih .start (create_ahead legs s)
      | cons id rest =>
        obtain ⟨step', hseek, hrest⟩ := hgives
        rw [advanceFrom, hseek]
        exact ⟨rfl, .cons hrest⟩

end Walk

/-! ## Cursors -/

variable [Text.Hasher]

/-- Moving the cursor on gives the quads of the list one by one, and then none. -/
inductive Yields : Cursor → List Quad → Prop where
  | done {c : Cursor} (ends : c.next.1 = none) : Yields c []
  | step {c : Cursor} {q : Quad} {qs : List Quad} (gives : c.next.1 = some q)
      (rest : Yields c.next.2 qs) : Yields c (q :: qs)

/-- A cursor yields the quads of the records ahead of it. -/
lemma yields_of_ahead {s : QuadStore} (h : s.Sound) {ids : List Nat}
    (hreadable : ∀ id ∈ ids, (s.quad? id).isSome) {w : Walk} {current : Option Nat}
    (hahead : Walk.Ahead s.statements w ids) : Yields ⟨s, w, current⟩ (ids.filterMap s.quad?) := by
  induction ids generalizing w current with
  | nil =>
    have hmove := hahead.advance h.statements
    refine .done ?_
    change (w.advance s.statements).1.bind s.quad? = none
    rw [hmove.1]
    rfl
  | cons id ids ih =>
    obtain ⟨q, hq⟩ := Option.isSome_iff_exists.1 (hreadable id List.mem_cons_self)
    have hmove := hahead.advance h.statements
    rw [List.filterMap_cons_some hq]
    refine .step ?_ ?_
    · change (w.advance s.statements).1.bind s.quad? = some q
      rw [hmove.1]
      exact hq
    · exact ih (fun other hother => hreadable other (List.mem_cons_of_mem id hother)) hmove.2

/-- **A new cursor yields the quads of its pattern**, in the order of the records. -/
theorem yields_quads {s : QuadStore} (h : s.Sound) (pattern : Pattern) :
    Yields (Cursor.create s pattern) (s.quads pattern) := by
  refine yields_of_ahead h ?_ (Walk.create_ahead _ _)
  intro id hid
  obtain ⟨q, hq, -⟩ := h.mem_ids.1 hid
  exact Option.isSome_iff_exists.2 ⟨q, hq⟩

/-- **Pattern queries are exact.**  In every reachable store, walking over the quads of a pattern
gives each quad of the store that the pattern admits once, gives nothing else, and ends; and the
store counts as many. -/
theorem reached_yields (config : Config) (operations : List Operation) (pattern : Pattern) :
    let s := reached config operations
    ∃ qs : List Quad, Yields (Cursor.create s pattern) qs ∧ qs.Nodup ∧
      (∀ q, q ∈ qs ↔ s.contains q = true ∧ pattern.admits q = true) ∧
      s.count pattern = qs.length := by
  have h := reached_sound config operations
  refine ⟨_, yields_quads h pattern, h.nodup_quads pattern, ?_, h.count_eq pattern⟩
  intro q
  rw [h.mem_quads, h.contains_iff, QuadStore.mem_contents]

end QuadBase.Store
