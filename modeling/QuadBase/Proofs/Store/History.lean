import QuadBase.Proofs.Store.Cursors
import QuadBase.Proofs.Store.Elementary
import QuadBase.Proofs.Store.Estimates
import QuadBase.Store.Report

/-!
# The past of a store does not show

Two stores with the same quads may have come to them on different ways.  One may know terms that the
other has never seen; tombstones, free numbers and deletion markers, the sizes of the tables and the
order of the chains all depend on the past.  **None of this shows in any answer about quads.**

* `Alike` — two stores answer every question alike, up to an order that is not promised.
* `Sound.alike` — stores with the same quads are alike.
* `Action.run_leads` — what an action answers and leaves, in terms of the quads alone.
* `reached_alike` — **reachable stores with the same quads are alike and stay so**, whatever is done
  to both.

What does depend on the past is told by no such answer: the order of a walk, and the number of known
terms in a dump.
-/

namespace QuadBase.Store

open QuadBase.Rdf QuadStore

/-! ## Lists in another order -/

/-- Sorted texts do not depend on the order that they came in. -/
lemma sortTexts_eq_of_perm {texts texts' : List String} (h : texts.Perm texts') :
    sortTexts texts = sortTexts texts' := by
  have hsorted : ∀ texts : List String, (sortTexts texts).Pairwise (· ≤ ·) := by
    intro texts
    have hpairwise : (sortTexts texts).Pairwise fun a b => decide (a ≤ b) = true :=
      List.pairwise_mergeSort
        (fun a b c hab hbc => by simp only [decide_eq_true_eq] at *; exact String.le_trans hab hbc)
        (fun a b => by simpa using String.le_total a b) texts
    exact hpairwise.imp fun hle => of_decide_eq_true hle
  exact List.Perm.eq_of_pairwise (fun a b _ _ => String.le_antisymm) (hsorted texts)
    (hsorted texts') (((sortTexts_perm texts).trans h).trans (sortTexts_perm texts').symm)

lemma distinct_perm {α : Type} [BEq α] [LawfulBEq α] [Hashable α] {xs ys : List α}
    (h : xs.Perm ys) : (distinct xs).Perm (distinct ys) := by
  rw [List.perm_ext_iff_of_nodup (distinct_nodup xs) (distinct_nodup ys)]
  intro x
  rw [mem_distinct, mem_distinct, h.mem_iff]

/-! ## Answers -/

/-- Equal answers, except that two errors may name different objects of those that are too many. -/
inductive SameAnswer {α : Type} : Except StoreError α → Except StoreError α → Prop where
  | refl (answer : Except StoreError α) : SameAnswer answer answer
  | ambiguous (first second first' second' : String) :
      SameAnswer (.error (.ambiguousObject first second))
        (.error (.ambiguousObject first' second'))

/-- A reply of a cursor without the quad that it shows. -/
def MoveReply.outline : MoveReply → Bool
  | .quad q => q.isSome
  | .removed done => done

/-- How a tour goes is a matter of the number of quads. -/
lemma Tour.outline_replies {t u : Tour} (hahead : t.ahead.length = u.ahead.length)
    (hcurrent : t.current.isSome = u.current.isSome) (moves : List Move) :
    (t.replies moves).map MoveReply.outline = (u.replies moves).map MoveReply.outline := by
  induction moves generalizing t u with
  | nil => rfl
  | cons m moves ih =>
    have hhead : t.ahead.head?.isSome = u.ahead.head?.isSome := by
      cases hts : t.ahead <;> cases hus : u.ahead <;> simp [hts, hus] at hahead ⊢
    rw [Tour.replies, Tour.replies, List.map_cons, List.map_cons]
    cases m with
    | next =>
      refine congrArg₂ _ hhead (ih ?_ hhead)
      simp only [Tour.move, List.length_tail, hahead]
    | remove => exact congrArg₂ _ hcurrent (ih hahead rfl)

/-! ## Questions -/

section Questions

variable [Text.Hasher]

/-- Two stores answer every question about quads alike. -/
structure Alike (s t : QuadStore) : Prop where
  size : s.size = t.size
  isEmpty : s.isEmpty = t.isEmpty
  contains : ∀ q, s.contains q = t.contains q
  count : ∀ pattern, s.count pattern = t.count pattern
  estimate : ∀ pattern, s.estimate pattern = t.estimate pattern
  /-- Walks to the end meet the same quads, each once. -/
  yields : ∀ pattern, ∃ qs qs', Yields (Cursor.create s pattern) qs ∧
    Yields (Cursor.create t pattern) qs' ∧ qs.Nodup ∧ qs.Perm qs'
  /-- Cursors that are moved alike find and remove alike. -/
  replies : ∀ pattern moves, ((Cursor.create s pattern).replies moves).map MoveReply.outline =
    ((Cursor.create t pattern).replies moves).map MoveReply.outline
  quads : ∀ pattern, (s.quads pattern).Perm (t.quads pattern)
  subjects : ∀ pattern, (s.subjects pattern).Perm (t.subjects pattern)
  predicates : ∀ pattern, (s.predicates pattern).Perm (t.predicates pattern)
  objects : ∀ pattern, (s.objects pattern).Perm (t.objects pattern)
  graphs : ∀ pattern, (s.graphs pattern).Perm (t.graphs pattern)
  objectValue : ∀ pattern, SameAnswer (s.objectValue pattern) (t.objectValue pattern)
  objectLiteral : ∀ pattern, SameAnswer (s.objectLiteral pattern) (t.objectLiteral pattern)
  objectResource : ∀ pattern, SameAnswer (s.objectResource pattern) (t.objectResource pattern)
  objectIri : ∀ pattern, SameAnswer (s.objectIri pattern) (t.objectIri pattern)
  objectString : ∀ pattern, SameAnswer (s.objectString pattern) (t.objectString pattern)
  text : s.text = t.text

namespace QuadStore

variable {s t : QuadStore} {pattern : Pattern}

/-- The only object of quads is the same in any order, and so is whether there is one. -/
lemma sameAnswer_objectValue (h : (s.quads pattern).Perm (t.quads pattern)) :
    SameAnswer (s.objectValue pattern) (t.objectValue pattern) := by
  have hobjects := h.map Quad.object
  rw [objectValue, objectValue]
  generalize (s.quads pattern).map Quad.object = xs at hobjects ⊢
  generalize (t.quads pattern).map Quad.object = ys at hobjects ⊢
  cases xs with
  | nil =>
    obtain rfl := List.nil_perm.1 hobjects
    exact .refl _
  | cons x xs =>
    cases ys with
    | nil => exact absurd hobjects.length_eq (by simp)
    | cons y ys =>
      dsimp only
      -- an object other than the first is there in both orders or in neither
      have hother : ∀ {z zs w ws}, (z :: zs : List Term).Perm (w :: ws) →
          zs.find? (· != z) = none → ws.find? (· != w) = none ∧ w = z := by
        intro z zs w ws hperm hnone
        have hall : ∀ v ∈ w :: ws, v = z := by
          intro v hv
          rcases List.mem_cons.1 (hperm.mem_iff.2 hv) with rfl | hmem
          · rfl
          · simpa using List.find?_eq_none.1 hnone v hmem
        have hw := hall w List.mem_cons_self
        refine ⟨List.find?_eq_none.2 fun v hv => ?_, hw⟩
        simp [hall v (List.mem_cons_of_mem w hv), hw]
      cases hx : xs.find? (· != x) with
      | none =>
        obtain ⟨hy, rfl⟩ := hother hobjects hx
        rw [hy]
        exact .refl _
      | some second =>
        cases hy : ys.find? (· != y) with
        | none =>
          rw [(hother hobjects.symm hy).1] at hx
          cases hx
        | some second' => exact .ambiguous _ _ _ _

lemma sameAnswer_objectAs {α : Type}
    (h : SameAnswer (s.objectValue pattern) (t.objectValue pattern)) (expected : TermClass)
    (convert : Term → Option α) :
    SameAnswer (s.objectAs pattern expected convert) (t.objectAs pattern expected convert) := by
  rw [objectAs, objectAs]
  generalize s.objectValue pattern = a at h ⊢
  generalize t.objectValue pattern = b at h ⊢
  cases h with
  | refl => exact .refl _
  | ambiguous => exact .ambiguous _ _ _ _

lemma sameAnswer_objectString
    (h : SameAnswer (s.objectValue pattern) (t.objectValue pattern)) :
    SameAnswer (s.objectString pattern) (t.objectString pattern) := by
  rw [objectString, objectString]
  generalize s.objectValue pattern = a at h ⊢
  generalize t.objectValue pattern = b at h ⊢
  cases h with
  | refl => exact .refl _
  | ambiguous => exact .ambiguous _ _ _ _

lemma Sound.contains_eq (hs : s.Sound) (ht : t.Sound) (h : s.contents = t.contents) (q : Quad) :
    s.contains q = t.contains q := by
  rw [Bool.eq_iff_iff, hs.contains_iff, ht.contains_iff, ← mem_contents, ← mem_contents, h]

lemma Sound.contents_eq (hs : s.Sound) (ht : t.Sound)
    (h : ∀ q, s.contains q = t.contains q) : s.contents = t.contents := by
  ext q
  rw [mem_contents, mem_contents, ← hs.contains_iff, ← ht.contains_iff, h]

lemma Sound.quads_perm (hs : s.Sound) (ht : t.Sound) (h : s.contents = t.contents)
    (pattern : Pattern) : (s.quads pattern).Perm (t.quads pattern) := by
  rw [List.perm_ext_iff_of_nodup (hs.nodup_quads pattern) (ht.nodup_quads pattern)]
  intro q
  rw [hs.mem_quads, ht.mem_quads, h]

/-- **Stores with the same quads answer every question alike.** -/
theorem Sound.alike (hs : s.Sound) (ht : t.Sound) (h : s.contents = t.contents) : Alike s t := by
  have hquads := hs.quads_perm ht h
  have hobject := fun pattern => sameAnswer_objectValue (hquads pattern)
  have hsize : s.size = t.size := by rw [hs.size_eq, ht.size_eq, h]
  exact {
    size := hsize
    isEmpty := by rw [isEmpty, isEmpty, hsize]
    contains := hs.contains_eq ht h
    count := fun pattern => by
      rw [hs.count_eq, ht.count_eq, (hquads pattern).length_eq]
    estimate := fun pattern => by rw [hs.estimate_eq, ht.estimate_eq, h]
    yields := fun pattern => ⟨_, _, yields_quads hs pattern, yields_quads ht pattern,
      hs.nodup_quads pattern, hquads pattern⟩
    replies := fun pattern moves => by
      obtain ⟨qs, hqs, hreplies, -⟩ := (Cursor.create_touring hs pattern).follows moves
      obtain ⟨qs', hqs', hreplies', -⟩ := (Cursor.create_touring ht pattern).follows moves
      rw [hreplies, hreplies']
      have hlength := (hqs.trans ((hquads pattern).trans hqs'.symm)).length_eq
      exact Tour.outline_replies (t := ⟨qs, none⟩) (u := ⟨qs', none⟩) hlength rfl moves
    quads := hquads
    subjects := fun pattern => distinct_perm ((hquads pattern).map _)
    predicates := fun pattern => distinct_perm ((hquads pattern).map _)
    objects := fun pattern => distinct_perm ((hquads pattern).map _)
    graphs := fun pattern => distinct_perm ((hquads pattern).map _)
    objectValue := hobject
    objectLiteral := fun pattern => sameAnswer_objectAs (hobject pattern) _ _
    objectResource := fun pattern => sameAnswer_objectAs (hobject pattern) _ _
    objectIri := fun pattern => sameAnswer_objectAs (hobject pattern) _ _
    objectString := fun pattern => sameAnswer_objectString (hobject pattern)
    text := by
      rw [text, text, sortTexts_eq_of_perm ((hquads {}).map Quad.text)] }

end QuadStore

end Questions

/-! ## Walking to the end -/

namespace Cursor

variable [Text.Hasher] {c : Cursor} {ids : List Nat}

/-- Goes on to the end, at most `steps` quads, and removes those that are picked.  Gives the quads
met, each with the answer of its removal. -/
def prune (picks : Quad → Bool) : (steps : Nat) → Cursor → List (Quad × Bool) × Cursor
  | 0, c => ([], c)
  | steps + 1, c =>
    match c.next with
    | (none, c) => ([], c)
    | (some q, c) =>
      let (removed, c) := if picks q then c.remove else (false, c)
      let (met, c) := prune picks steps c
      ((q, removed) :: met, c)

omit [Text.Hasher] in
/-- What pruning leads to: the quads of the records ahead are met, each once, and those that are
picked are taken out. -/
structure Pruned (s : QuadStore) (ids : List Nat) (picks : Quad → Bool) (met : List (Quad × Bool))
    (s' : QuadStore) : Prop where
  perm : met.Perm ((ids.filterMap s.quad?).map fun q => (q, picks q))
  holds_iff : ∀ q, s'.Holds q ↔ s.Holds q ∧ ¬ (q ∈ ids.filterMap s.quad? ∧ picks q = true)
  namespaces_eq : s'.namespaces = s.namespaces

section Pruned

omit [Text.Hasher]

variable {s s₁ s' : QuadStore} {ids₁ : List Nat} {id : Nat} {q : Quad} {picks : Quad → Bool}
  {met : List (Quad × Bool)}

/-- A quad that is not picked stays. -/
lemma Pruned.cons_left (h : Pruned s ids picks met s') (hq : s.quad? id = some q)
    (hpicks : picks q = false) : Pruned s (id :: ids) picks ((q, false) :: met) s' := by
  refine ⟨?_, ?_, h.namespaces_eq⟩
  · rw [List.filterMap_cons_some hq, List.map_cons, hpicks]
    exact h.perm.cons _
  · intro other
    rw [h.holds_iff, List.filterMap_cons_some hq, List.mem_cons]
    by_cases heq : other = q
    · simp [heq, hpicks]
    · simp [heq]

/-- A quad that is picked is taken out, which may change the order of the records behind it. -/
lemma Pruned.cons_taken (h : Pruned s₁ ids₁ picks met s') (hids : ids₁.Perm ids)
    (hnot : id ∉ ids) (hq : s.quad? id = some q) (hpicks : picks q = true)
    (hquads : ∀ other, s₁.quad? other = if other = id then none else s.quad? other)
    (hholds : ∀ other, s₁.Holds other ↔ s.Holds other ∧ other ≠ q)
    (hnamespaces : s₁.namespaces = s.namespaces) :
    Pruned s (id :: ids) picks ((q, true) :: met) s' := by
  have hperm : (ids₁.filterMap s₁.quad?).Perm (ids.filterMap s.quad?) := by
    have hsame : ids.filterMap s₁.quad? = ids.filterMap s.quad? := by
      refine List.filterMap_congr fun other hother => ?_
      have hne : other ≠ id := fun heq => hnot (heq ▸ hother)
      rw [hquads, if_neg hne]
    exact hsame ▸ hids.filterMap _
  refine ⟨?_, ?_, h.namespaces_eq.trans hnamespaces⟩
  · rw [List.filterMap_cons_some hq, List.map_cons, hpicks]
    exact (h.perm.trans (hperm.map _)).cons _
  · intro other
    rw [h.holds_iff, hholds, hperm.mem_iff, List.filterMap_cons_some hq, List.mem_cons, and_assoc]
    by_cases heq : other = q
    · simp [heq, hpicks]
    · simp [heq]

end Pruned

/-- **Pruning meets every quad and takes out those that are picked.** -/
theorem Touring.prune (h : c.Touring ids) (picks : Quad → Bool) {steps : Nat}
    (hsteps : ids.length < steps) : (c.prune picks steps).2.store.Sound ∧
      Pruned c.store ids picks (c.prune picks steps).1 (c.prune picks steps).2.store := by
  induction steps generalizing c ids with
  | zero => cases hsteps
  | succ steps ih =>
    obtain ⟨hanswer, hstore, hcurrent, htouring⟩ := h.next
    rw [Cursor.prune]
    cases hnext : c.next with
    | mk answer c' =>
      rw [hnext] at hanswer hstore hcurrent htouring
      dsimp only at hanswer hstore hcurrent htouring
      cases ids with
      | nil =>
        obtain rfl : answer = none := hanswer
        exact ⟨htouring.sound, .refl _, fun q => by simp [hstore], by rw [hstore]⟩
      | cons id ids =>
        obtain ⟨q, hq⟩ := Option.isSome_iff_exists.1 (h.readable id List.mem_cons_self)
        obtain rfl : answer = some q := hanswer.trans hq
        have hshort : ids.length < steps := Nat.lt_of_succ_lt_succ hsteps
        rw [← hstore] at hq ⊢
        dsimp only
        cases hpicks : picks q with
        | true =>
          obtain ⟨hremoved, -, hquads, ids', hids, htouring'⟩ := htouring.remove hcurrent
          obtain ⟨hsound, hpruned⟩ := ih htouring' (hids.length_eq ▸ hshort)
          rw [if_pos rfl, hremoved]
          exact ⟨hsound, hpruned.cons_taken hids (List.nodup_cons.1 h.nodup).1 hq hpicks hquads
            (holds_of_quad?_eq htouring.sound hq hquads)
            (QuadStore.Kept.cursorRemove c').namespaces_eq⟩
        | false =>
          obtain ⟨hsound, hpruned⟩ := ih htouring hshort
          exact ⟨hsound, hpruned.cons_left hq hpicks⟩

end Cursor

/-! ## Actions -/

/-- What can be done with the quads of a store, and with its abbreviations. -/
inductive Action where
  | edit (e : Edit)
  /-- A walk over the quads of a pattern that removes those that are picked. -/
  | prune (pattern : Pattern) (picks : Quad → Bool)
  /-- The store of the quads of a pattern takes the place of this one. -/
  | filter (pattern : Pattern)
  | setNamespace (abbreviation space : String)
  | eraseNamespace (abbreviation : String)

/-- What an action answers. -/
inductive Outcome where
  | reply (r : Reply)
  /-- The quads met, each with the answer of its removal. -/
  | met (entries : List (Quad × Bool))
  | copied
  /-- The namespace that the abbreviation had before. -/
  | previous (space : Option String)
  deriving DecidableEq

/-- The same outcome, but for the order of quads.  Outcomes about abbreviations need only be the
same if `agree` holds. -/
inductive Outcome.Same (agree : Prop) : Outcome → Outcome → Prop where
  | reply (r : Reply) : Same agree (.reply r) (.reply r)
  | met {entries entries' : List (Quad × Bool)} (perm : entries.Perm entries') :
      Same agree (.met entries) (.met entries')
  | copied : Same agree .copied .copied
  | previous {space space' : Option String} (eq : agree → space = space') :
      Same agree (.previous space) (.previous space')

namespace Action

section Spec

variable (Q : Finset Quad) (namespaces : Std.TreeMap String String)

/-- What an action makes of a set of quads. -/
def apply : Action → Finset Quad
  | .edit e => (e.apply Q).2
  | .prune pattern picks => Q.filter fun q => ¬ (pattern.admits q = true ∧ picks q = true)
  | .filter pattern => Q.filter fun q => pattern.admits q = true
  | .setNamespace _ _ => Q
  | .eraseNamespace _ => Q

/-- What an action makes of the abbreviations. -/
def rename : Action → Std.TreeMap String String
  | .setNamespace abbreviation space => namespaces.insert abbreviation space
  | .eraseNamespace abbreviation => namespaces.erase abbreviation
  | _ => namespaces

/-- What an action answers over a set of quads, which may come in any order. -/
inductive Answers : Action → Outcome → Prop where
  | edit (e : Edit) : Answers (.edit e) (.reply (e.apply Q).1)
  | prune {pattern : Pattern} {picks : Quad → Bool} {qs : List Quad} {met : List (Quad × Bool)}
      (nodup : qs.Nodup) (mem_iff : ∀ q, q ∈ qs ↔ q ∈ Q ∧ pattern.admits q = true)
      (perm : met.Perm (qs.map fun q => (q, picks q))) :
      Answers (.prune pattern picks) (.met met)
  | filter (pattern : Pattern) : Answers (.filter pattern) .copied
  | setNamespace (abbreviation space : String) :
      Answers (.setNamespace abbreviation space) (.previous namespaces[abbreviation]?)
  | eraseNamespace (abbreviation : String) :
      Answers (.eraseNamespace abbreviation) (.previous namespaces[abbreviation]?)

variable {Q namespaces}

/-- Two answers to one action over the same quads are the same. -/
lemma Answers.same {namespaces' : Std.TreeMap String String} {agree : Prop} {action : Action}
    {outcome outcome' : Outcome} (h : Answers Q namespaces action outcome)
    (h' : Answers Q namespaces' action outcome') (hagree : agree → namespaces = namespaces') :
    outcome.Same agree outcome' := by
  cases h with
  | edit e =>
    cases h' with
    | edit => exact .reply _
  | @prune _ picks qs _ nodup mem_iff perm =>
    cases h' with
    | @prune _ _ qs' _ nodup' mem_iff' perm' =>
      have hqs : qs.Perm qs' := (List.perm_ext_iff_of_nodup nodup nodup').2 fun q =>
        (mem_iff q).trans (mem_iff' q).symm
      exact .met ((perm.trans (hqs.map _)).trans perm'.symm)
  | filter =>
    cases h' with
    | filter => exact .copied
  | setNamespace abbreviation =>
    cases h' with
    | setNamespace => exact .previous fun hyes => by rw [hagree hyes]
  | eraseNamespace abbreviation =>
    cases h' with
    | eraseNamespace => exact .previous fun hyes => by rw [hagree hyes]

end Spec

variable [Text.Hasher]

/-- The outcome of an action and the store it leaves. -/
def run (s : QuadStore) : Action → Change Outcome
  | .edit e => andThen (e.run s) fun r s => (.ok (.reply r), s)
  | .prune pattern picks =>
    let (met, c) := (Cursor.create s pattern).prune picks (s.count pattern + 1)
    (.ok (.met met), c.store)
  | .filter pattern =>
    match s.filter pattern with
    | (.ok (), copy) => (.ok .copied, copy)
    | (.error e, _) => (.error e, s)
  | .setNamespace abbreviation space =>
    (.ok (.previous (s.namespace? abbreviation)), s.setNamespace abbreviation space)
  | .eraseNamespace abbreviation =>
    (.ok (.previous (s.namespace? abbreviation)), s.eraseNamespace abbreviation)

/-- **What an action answers and leaves is a matter of the quads and the abbreviations alone**,
unless a stock is full. -/
theorem run_leads {s : QuadStore} (h : s.Sound) (action : Action) :
    Leads (action.run s) Refused fun outcome s' =>
      s'.Sound ∧ Answers s.contents s.namespaces action outcome ∧
        s'.contents = action.apply s.contents ∧ s'.namespaces = action.rename s.namespaces := by
  cases action with
  | edit e =>
    refine ((e.run_leads h).and_store (Kept.edit s e)).andThen ?_
    rintro reply s' ⟨⟨hsound, rfl, hcontents⟩, hkept⟩
    exact ⟨hsound, .edit e, hcontents, hkept.namespaces_eq⟩
  | prune pattern picks =>
    have hlength : (s.ids pattern).length < s.count pattern + 1 := by
      rw [h.count_eq, quads, List.length_filterMap_eq_countP, Nat.lt_succ_iff,
        List.countP_eq_length.2]
      intro id hid
      obtain ⟨q, hq, -⟩ := h.mem_ids.1 hid
      rw [hq]
      rfl
    obtain ⟨hsound, hpruned⟩ := (Cursor.create_touring h pattern).prune picks hlength
    refine ⟨hsound, .prune (h.nodup_quads pattern) (fun q => h.mem_quads) hpruned.perm, ?_,
      hpruned.namespaces_eq⟩
    ext q
    refine (mem_contents.trans (hpruned.holds_iff q)).trans ?_
    rw [apply, Finset.mem_filter, mem_contents]
    refine and_congr_right fun hholds => not_congr (and_congr_left fun _ => ?_)
    exact h.mem_quads.trans (and_iff_right (mem_contents.2 hholds))
  | filter pattern =>
    have hcopy : Leads (s.filter pattern) Refused fun _ copy =>
        copy.Sound ∧ copy.contents = (s.quads pattern).toFinset ∧
          copy.namespaces = s.namespaces := by
      refine ((create_sound s.config).extendFrom 0 (s.quads pattern)).andThen ?_
      rintro count copy ⟨hgains, -⟩
      exact ⟨hgains.sound.withNamespaces s.namespaces,
        hgains.contents_eq.trans (Finset.empty_union _), rfl⟩
    rw [run]
    cases hfilter : s.filter pattern with
    | mk answer copy =>
      rw [hfilter] at hcopy
      cases answer with
      | error e => exact ⟨hcopy.1, h⟩
      | ok =>
        obtain ⟨hsound, hcontents, hnamespaces⟩ := hcopy
        exact ⟨hsound, .filter pattern, hcontents.trans (h.toFinset_quads pattern), hnamespaces⟩
  | setNamespace abbreviation space =>
    exact ⟨h.withNamespaces _, .setNamespace abbreviation space, rfl, rfl⟩
  | eraseNamespace abbreviation =>
    exact ⟨h.withNamespaces _, .eraseNamespace abbreviation, rfl, rfl⟩

/-- Actions one after the other: all answers, and the store at the end. -/
def runAll (s : QuadStore) : List Action → List (Except StoreError Outcome) × QuadStore
  | [] => ([], s)
  | action :: actions =>
    let (answer, s) := action.run s
    let (answers, s) := runAll s actions
    (answer :: answers, s)

/-- One action on two stores with the same quads. -/
lemma run_same {s t : QuadStore} (hs : s.Sound) (ht : t.Sound) (h : s.contents = t.contents)
    {agree : Prop} (hagree : agree → s.namespaces = t.namespaces) (action : Action)
    (hroom : ∀ stock limit, (action.run s).1 ≠ .error (.capacityExceeded stock limit) ∧
      (action.run t).1 ≠ .error (.capacityExceeded stock limit)) :
    ∃ outcome outcome' s' t', action.run s = (.ok outcome, s') ∧ action.run t = (.ok outcome', t') ∧
      outcome.Same agree outcome' ∧ s'.Sound ∧ t'.Sound ∧ s'.contents = t'.contents ∧
      (agree → s'.namespaces = t'.namespaces) := by
  have hleads := run_leads hs action
  have hleads' := run_leads ht action
  cases hrun : action.run s with
  | mk answer s' =>
    cases hrun' : action.run t with
    | mk answer' t' =>
      rw [hrun] at hleads hroom
      rw [hrun'] at hleads' hroom
      cases answer with
      | error e =>
        obtain ⟨⟨stock, limit, rfl⟩, -⟩ := hleads
        exact absurd rfl (hroom stock limit).1
      | ok outcome =>
        cases answer' with
        | error e =>
          obtain ⟨⟨stock, limit, rfl⟩, -⟩ := hleads'
          exact absurd rfl (hroom stock limit).2
        | ok outcome' =>
          obtain ⟨hsound, hanswers, hcontents, hnamespaces⟩ := hleads
          obtain ⟨hsound', hanswers', hcontents', hnamespaces'⟩ := hleads'
          rw [← h] at hanswers' hcontents'
          refine ⟨outcome, outcome', s', t', rfl, rfl, hanswers.same hanswers' hagree, hsound,
            hsound', hcontents.trans hcontents'.symm, fun hyes => ?_⟩
          rw [hnamespaces, hnamespaces', hagree hyes]

/-- **The same actions on two stores with the same quads** have the same outcomes and leave the
same quads, unless a stock is full. -/
theorem runAll_same {s t : QuadStore} (hs : s.Sound) (ht : t.Sound) (h : s.contents = t.contents)
    {agree : Prop} (hagree : agree → s.namespaces = t.namespaces) {actions : List Action}
    (hroom : ∀ stock limit, .error (.capacityExceeded stock limit) ∉ (runAll s actions).1 ∧
      .error (.capacityExceeded stock limit) ∉ (runAll t actions).1) :
    (∃ outcomes outcomes' : List Outcome, (runAll s actions).1 = outcomes.map .ok ∧
      (runAll t actions).1 = outcomes'.map .ok ∧
      List.Forall₂ (Outcome.Same agree) outcomes outcomes') ∧
    (runAll s actions).2.Sound ∧ (runAll t actions).2.Sound ∧
    (runAll s actions).2.contents = (runAll t actions).2.contents := by
  induction actions generalizing s t with
  | nil => exact ⟨⟨[], [], rfl, rfl, .nil⟩, hs, ht, h⟩
  | cons action actions ih =>
    simp only [runAll, List.mem_cons, not_or] at hroom
    obtain ⟨outcome, outcome', s', t', hrun, hrun', hsame, hs', ht', h', hagree'⟩ :=
      run_same hs ht h hagree action fun stock limit =>
        ⟨Ne.symm (hroom stock limit).1.1, Ne.symm (hroom stock limit).2.1⟩
    rw [hrun, hrun'] at hroom
    obtain ⟨⟨outcomes, outcomes', hanswers, hanswers', hall⟩, hrest⟩ :=
      ih hs' ht' h' hagree' fun stock limit => ⟨(hroom stock limit).1.2, (hroom stock limit).2.2⟩
    rw [runAll, runAll, hrun, hrun']
    refine ⟨⟨outcome :: outcomes, outcome' :: outcomes', ?_, ?_, .cons hsame hall⟩, hrest⟩
    · simp only [hanswers, List.map_cons]
    · simp only [hanswers', List.map_cons]

end Action

/-! ## Reachable stores -/

section Reachable

variable [Text.Hasher]

/-- **The past of a reachable store does not show.**  Two reachable stores that contain the same
quads, whatever their configurations and histories, answer every question about quads alike.  The
same further actions have the same outcomes in both, as long as neither runs out of numbers, and
leave them alike.  Only what is told about abbreviations, which are no quads, may depend on what
abbreviations there were. -/
theorem reached_alike (config config' : Config) (operations operations' : List Operation)
    (hsame : ∀ q, (reached config operations).contains q =
      (reached config' operations').contains q) :
    let s := reached config operations
    let t := reached config' operations'
    Alike s t ∧ ∀ actions : List Action,
      (∀ stock limit,
        .error (.capacityExceeded stock limit) ∉ (Action.runAll s actions).1 ∧
        .error (.capacityExceeded stock limit) ∉ (Action.runAll t actions).1) →
      (∃ outcomes outcomes' : List Outcome, (Action.runAll s actions).1 = outcomes.map .ok ∧
        (Action.runAll t actions).1 = outcomes'.map .ok ∧
        List.Forall₂ (Outcome.Same (s.namespaces = t.namespaces)) outcomes outcomes') ∧
      Alike (Action.runAll s actions).2 (Action.runAll t actions).2 := by
  intro s t
  have hs : s.Sound := reached_sound config operations
  have ht : t.Sound := reached_sound config' operations'
  have h : s.contents = t.contents := hs.contents_eq ht hsame
  refine ⟨hs.alike ht h, ?_⟩
  intro actions hroom
  obtain ⟨houtcomes, hs', ht', h'⟩ := Action.runAll_same hs ht h id hroom
  exact ⟨houtcomes, hs'.alike ht' h'⟩

end Reachable

/-- A quad whose subject and object are blank. -/
def blankQuad (subject object : String) : Quad :=
  ⟨.blank subject, ⟨"p"⟩, .blank object, .defaultGraph⟩

/-- Two quads, put in one after the other. -/
def straight : List Operation :=
  [.edit (.insert (blankQuad "a" "b")), .edit (.insert (blankQuad "a" "c"))]

/-- The same quads in the other order, and a third one that is removed again. -/
def detour : List Operation :=
  [.edit (.extend [blankQuad "d" "e", blankQuad "a" "c"]), .setNamespace "x" "y",
    .edit (.removeQuad (blankQuad "d" "e")), .edit (.insert (blankQuad "a" "b"))]

theorem reached_alike_detour :
    let s := reached ⟨0, 0⟩ straight
    let t := reached ⟨9, 9⟩ detour
    let actions : List Action := [.prune { subject := some (.blank "a") } (· = blankQuad "a" "b"),
      .edit (.insert (blankQuad "d" "e"))]
    (s.contents = t.contents ∧ Alike s t) ∧
      Alike (Action.runAll s actions).2 (Action.runAll t actions).2 := by
  intro s t actions
  have hcontents : s.contents = t.contents := by decide +kernel
  have hanswers : (Action.runAll s actions).1 = [.ok (.met [(blankQuad "a" "c", false),
      (blankQuad "a" "b", true)]), .ok (.reply (.flag true))] := by
    decide +kernel
  have hanswers' : (Action.runAll t actions).1 = [.ok (.met [(blankQuad "a" "b", true),
      (blankQuad "a" "c", false)]), .ok (.reply (.flag true))] := by
    decide +kernel
  obtain ⟨halike, hactions⟩ := reached_alike ⟨0, 0⟩ ⟨9, 9⟩ straight detour
    ((reached_sound _ _).contains_eq (reached_sound _ _) hcontents)
  refine ⟨⟨hcontents, halike⟩, (hactions actions fun stock limit => ⟨?_, ?_⟩).2⟩
  · change _ ∉ (Action.runAll s actions).1
    simp [hanswers]
  · change _ ∉ (Action.runAll t actions).1
    simp [hanswers']

end QuadBase.Store
