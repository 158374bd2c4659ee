import QuadBase.Proofs.Store.Iteration
import QuadBase.Proofs.Store.Trails

/-!
# Removing on the way

A cursor may remove the quad that it stands on and go on.  The removal may sweep, which frees
records and relinks others, and it changes the counts by which the legs behind choose their way.
None of this changes which quads are still to come, only their order may be another one.

`Tour` is a walk over a plain list that never changes.  **A cursor replies to every sequence of
moves as a tour over the quads of its pattern does**, in an order that may depend on the moves, and
takes the same quads out of the store.

* `Walk.Ahead.remove` — what is ahead of a walk after a removal.
* `Cursor.Touring` — the invariant of a cursor, kept by `Touring.next` and `Touring.remove`.
* `Touring.follows` — a whole run, from any point on.
* `reached_tour` — the result for cursors over reachable stores.
-/

namespace QuadBase.Store

open QuadBase.Rdf

/-! ## Walks over changing statements -/

namespace Walk

variable {leg : Leg} {s s' : Statements} {step : Step} {ids : List Nat} {id : Nat}

/-- A step in a chain leads on a trail, which removals keep. -/
def OnTrail (s : Statements) : Step → Prop
  | .start => True
  | .scan _ => True
  | .chain p next => ∃ handle l, Statements.Trail s handle p next l

lemma seekScan_onTrail {count next : Nat}
    (h : seekScan leg s.records count next = some (id, step)) : OnTrail s step := by
  induction count generalizing next with
  | zero => cases h
  | succ count ih =>
    rw [seekScan] at h
    split at h
    · obtain ⟨-, rfl⟩ := Prod.mk.inj (Option.some.inj h)
      trivial
    · exact ih h

lemma seekChain_onTrail {p : Position} {steps handle : Nat} {current : Option Nat} {l : List Nat}
    (htrail : Statements.Trail s handle p current l)
    (h : seekChain leg s.records p steps current = some (id, step)) : OnTrail s step := by
  induction steps generalizing current l with
  | zero => cases h
  | succ steps ih =>
    cases current with
    | none => cases h
    | some other =>
      obtain ⟨l', hnext⟩ := htrail.next
      rw [seekChain] at h
      split at h
      · obtain ⟨-, rfl⟩ := Prod.mk.inj (Option.some.inj h)
        exact ⟨handle, l', hnext⟩
      · exact ih hnext h

variable [Text.Hasher]

lemma seek_onTrail (hs : s.Sound) {answer : Nat × Step} (htrail : OnTrail s step)
    (h : seek leg s step = some answer) : OnTrail s answer.2 := by
  have hbegun : ∀ {step}, OnTrail s step → seek.seekBegun leg s step = some answer →
      OnTrail s answer.2 := by
    intro step htrail h
    cases step with
    | start => cases h
    | scan next => exact seekScan_onTrail h
    | chain p next =>
      obtain ⟨handle, l, htrail⟩ := htrail
      exact seekChain_onTrail htrail h
  cases step with
  | start =>
    refine hbegun ?_ h
    rcases leg.access_cases s with hscan | ⟨p, handle, -, hchain⟩
    · rw [hscan]
      trivial
    · rw [hchain]
      exact ⟨handle, _, .ofHead hs handle p⟩
  | scan next => exact hbegun htrail h
  | chain p next => exact hbegun htrail h

lemma advance_onTrail (hs : s.Sound) {w : Walk} (htrail : OnTrail s w.step) :
    OnTrail s (w.advance s).2.step := by
  obtain ⟨legs, step⟩ := w
  rw [Walk.advance]
  dsimp only at htrail ⊢
  induction legs generalizing step with
  | nil => exact htrail
  | cons leg legs ih =>
    rw [advanceFrom]
    cases hseek : seek leg s step with
    | none => exact ih .start trivial
    | some answer => exact seek_onTrail hs htrail hseek

/-! ## What is ahead after a removal -/

/-- A leg admits what it admitted, but not the record that is gone. -/
lemma admitsAt_spares (h : s.Spares id s') (leg : Leg) (other : Nat) :
    leg.admitsAt s'.records other = (decide (other ≠ id) && leg.admitsAt s.records other) := by
  rw [Bool.eq_iff_iff, Bool.and_eq_true, decide_eq_true_eq, Leg.admitsAt_iff, Leg.admitsAt_iff]
  simp only [h.terms?_eq]
  by_cases heq : other = id <;> simp [heq]

/-- A row of records without the one that is gone is admitted as before. -/
lemma filter_spares (h : s.Spares id s') {l : List Nat}
    (hid : id ∉ l.filter (leg.admitsAt s.records)) :
    l.filter (leg.admitsAt s'.records) = l.filter (leg.admitsAt s.records) := by
  refine List.filter_congr ?_
  intro other hother
  rw [admitsAt_spares h]
  by_cases heq : other = id
  · have hnot : leg.admitsAt s.records id ≠ true := fun hadmits =>
      hid (List.mem_filter.2 ⟨heq ▸ hother, hadmits⟩)
    simp [heq, hnot]
  · simp [heq]

/-- The records of a leg, but for their order: the leg may choose another way now. -/
lemma matching_spares (hs : s.Sound) (h : s.Spares id s') (hid : id ∉ leg.matching s) :
    (leg.matching s').Perm (leg.matching s) := by
  rw [List.perm_ext_iff_of_nodup (Leg.nodup_matching h.sound leg) (Leg.nodup_matching hs leg)]
  intro other
  rw [Leg.mem_matching h.sound, Leg.mem_matching hs, h.terms?_eq]
  split
  next heq =>
    rw [heq, ← Leg.mem_matching hs]
    simp [hid]
  next => rfl

lemma matchingAll_spares (hs : s.Sound) (h : s.Spares id s') {legs : List Leg}
    (hid : id ∉ matchingAll legs s) : (matchingAll legs s').Perm (matchingAll legs s) := by
  refine List.Perm.flatMap_left legs ?_
  intro leg hleg
  exact matching_spares hs h fun hmem => hid (List.mem_flatMap.2 ⟨leg, hleg, hmem⟩)

/-- What a step of a leg still has to come is not changed by the removal of another record. -/
lemma Remains.remove (hs : s.Sound) (h : s.Spares id s') (hremains : Remains leg s step ids)
    (htrail : OnTrail s step) (hid : id ∉ ids) :
    OnTrail s' step ∧ ∃ ids', ids'.Perm ids ∧ Remains leg s' step ids' := by
  cases hremains with
  | start => exact ⟨trivial, leg.matching s', matching_spares hs h hid, .start⟩
  | scan next =>
    refine ⟨trivial, _, List.Perm.of_eq ?_, .scan next⟩
    rw [h.size_eq]
    exact filter_spares h hid
  | @chain p next l linked length_le =>
    obtain ⟨handle, own, htrail⟩ := htrail
    obtain rfl := linked.unique htrail.linked
    obtain ⟨l', htrail', hlength, hlive⟩ := h.trail htrail
    refine ⟨⟨handle, l', htrail'⟩, _, List.Perm.of_eq ?_,
      .chain htrail'.linked (Nat.le_trans hlength (h.size_eq ▸ length_le))⟩
    -- only live records are admitted, and those are on both trails
    have hadmits : ∀ row : List Nat, row.filter (leg.admitsAt s'.records) =
        (row.filter (Statements.isLiveAt s'.records)).filter (leg.admitsAt s'.records) := by
      intro row
      rw [List.filter_filter]
      refine List.filter_congr ?_
      intro other _
      rw [Bool.eq_iff_iff, Bool.and_eq_true]
      refine ⟨fun hyes => ⟨hyes, ?_⟩, And.left⟩
      obtain ⟨handles, hterms, -⟩ := Leg.admitsAt_iff.1 hyes
      exact Statements.isLiveAt_of_terms? hterms
    rw [hadmits l', hlive, ← hadmits l]
    exact filter_spares h hid

/-- **A removal leaves what is ahead of a walk**, in some order. -/
theorem Ahead.remove (hs : s.Sound) (h : s.Spares id s') {w : Walk} (hahead : Ahead s w ids)
    (htrail : OnTrail s w.step) (hid : id ∉ ids) :
    OnTrail s' w.step ∧ ∃ ids', ids'.Perm ids ∧ Ahead s' w ids' := by
  cases hahead with
  | @nil step =>
    refine ⟨?_, [], .refl [], .nil⟩
    cases step with
    | start => trivial
    | scan => trivial
    | chain p next =>
      obtain ⟨handle, l, htrail⟩ := htrail
      obtain ⟨l', htrail', -⟩ := h.trail htrail
      exact ⟨handle, l', htrail'⟩
  | @cons leg legs step rest remains =>
    rw [List.mem_append, not_or] at hid
    obtain ⟨htrail', rest', hperm, hremains⟩ := remains.remove hs h htrail hid.1
    exact ⟨htrail', _, hperm.append (matchingAll_spares hs h hid.2), .cons hremains⟩

end Walk

/-! ## Tours -/

/-- What a cursor replies to a move. -/
inductive MoveReply where
  /-- The quad that it stands on now, if there is one. -/
  | quad (q : Option Quad)
  /-- Whether something was removed. -/
  | removed (done : Bool)
  deriving DecidableEq

/-- The quad that a reply shows. -/
def MoveReply.quad? : MoveReply → Option Quad
  | .quad q => q
  | .removed _ => none

/-- A walk over a list of quads. -/
structure Tour where
  /-- The quads to come. -/
  ahead : List Quad
  /-- The quad that can be removed. -/
  current : Option Quad

namespace Tour

def reply (t : Tour) : Move → MoveReply
  | .next => .quad t.ahead.head?
  | .remove => .removed t.current.isSome

def move (t : Tour) : Move → Tour
  | .next => ⟨t.ahead.tail, t.ahead.head?⟩
  | .remove => ⟨t.ahead, none⟩

def replies (t : Tour) : List Move → List MoveReply
  | [] => []
  | m :: moves => t.reply m :: (t.move m).replies moves

/-- The quads that are removed on a tour. -/
def taken (t : Tour) : List Move → List Quad
  | [] => []
  | .next :: moves => (t.move .next).taken moves
  | .remove :: moves => t.current.toList ++ (t.move .remove).taken moves

/-- As many quads are seen as there are moves to a next one, as long as there are any. -/
theorem quads_replies (t : Tour) (moves : List Move) :
    (t.replies moves).filterMap MoveReply.quad? = t.ahead.take (moves.count .next) := by
  induction moves generalizing t with
  | nil => rfl
  | cons m moves ih =>
    cases m with
    | next =>
      rw [List.count_cons_self, replies, List.filterMap_cons, ih]
      cases hahead : t.ahead with
      | nil => simp [reply, move, hahead, MoveReply.quad?]
      | cons q qs => simp [reply, move, hahead, MoveReply.quad?]
    | remove => rw [replies, List.filterMap_cons, ih, List.count_cons_of_ne (by decide)]; rfl

/-- Going to the next quad and removing it, again and again. -/
def rounds : Nat → List Move
  | 0 => []
  | count + 1 => .next :: .remove :: rounds count

/-- Rounds take what they meet. -/
lemma taken_rounds (t : Tour) (count : Nat) : t.taken (rounds count) = t.ahead.take count := by
  induction count generalizing t with
  | zero => rfl
  | succ count ih =>
    rw [rounds, taken, taken, ih]
    cases hahead : t.ahead with
    | nil => simp [move, hahead]
    | cons q qs => simp [move, hahead]

end Tour

/-! ## Cursors -/

namespace Cursor

variable [Text.Hasher] {c : Cursor} {ids : List Nat}

def reply (c : Cursor) : Move → MoveReply
  | .next => .quad c.next.1
  | .remove => .removed c.remove.1

def replies (c : Cursor) : List Move → List MoveReply
  | [] => []
  | m :: moves => c.reply m :: (c.move m).replies moves

/-- **The invariant of a cursor**: the records of the list are ahead of it, and the one it stands on
is not among them. -/
structure Touring (c : Cursor) (ids : List Nat) : Prop where
  sound : c.store.Sound
  ahead : Walk.Ahead c.store.statements c.walk ids
  onTrail : Walk.OnTrail c.store.statements c.walk.step
  nodup : ids.Nodup
  readable : ∀ id ∈ ids, (c.store.quad? id).isSome
  current : ∀ id ∈ c.current, id ∉ ids ∧ (c.store.quad? id).isSome

lemma create_touring {s : QuadStore} (h : s.Sound) (pattern : Pattern) :
    (create s pattern).Touring (s.ids pattern) where
  sound := h
  ahead := Walk.create_ahead _ _
  onTrail := trivial
  nodup := h.nodup_ids pattern
  readable id hid := by
    obtain ⟨q, hq, -⟩ := h.mem_ids.1 hid
    exact Option.isSome_iff_exists.2 ⟨q, hq⟩
  current id hid := by cases hid

/-- A move shows the first quad to come and changes nothing in the store. -/
theorem Touring.next (h : c.Touring ids) :
    c.next.1 = ids.head?.bind c.store.quad? ∧ c.next.2.store = c.store ∧
      c.next.2.current = ids.head? ∧ c.next.2.Touring ids.tail := by
  obtain ⟨s, w, current⟩ := c
  obtain ⟨hanswer, hahead⟩ := h.ahead.advance h.sound.statements
  refine ⟨?_, rfl, hanswer, ⟨h.sound, hahead, Walk.advance_onTrail h.sound.statements h.onTrail,
    h.nodup.tail, fun id hid => h.readable id (List.mem_of_mem_tail hid), ?_⟩⟩
  · change (w.advance s.statements).1.bind s.quad? = _
    rw [hanswer]
  · intro id hid
    change id ∈ (w.advance s.statements).1 at hid
    rw [hanswer] at hid
    cases ids with
    | nil => cases hid
    | cons first rest =>
      obtain rfl := Option.some.inj hid
      exact ⟨(List.nodup_cons.1 h.nodup).1, h.readable first List.mem_cons_self⟩

/-- A removal takes out the quad that the cursor stands on, and leaves those to come. -/
theorem Touring.remove (h : c.Touring ids) {id : Nat} (hid : c.current = some id) :
    c.remove.1 = true ∧ c.remove.2.current = none ∧
      (∀ other, c.remove.2.store.quad? other = if other = id then none else c.store.quad? other) ∧
      ∃ ids', ids'.Perm ids ∧ c.remove.2.Touring ids' := by
  obtain ⟨s, w, current⟩ := c
  obtain rfl : current = some id := hid
  obtain ⟨hnot, hsome⟩ := h.current id rfl
  obtain ⟨hsound, hanswer, hquads⟩ := h.sound.removeId id
  obtain ⟨htrail, ids', hperm, hahead⟩ :=
    h.ahead.remove h.sound.statements (h.sound.statements.remove_spares id) h.onTrail hnot
  refine ⟨hanswer.trans hsome, rfl, hquads, ids', hperm, hsound, hahead, htrail,
    hperm.nodup_iff.2 h.nodup, ?_, fun other hother => by cases hother⟩
  intro other hother
  have hmem := hperm.subset hother
  have hne : other ≠ id := fun heq => hnot (heq ▸ hmem)
  change ((s.removeId id).2.quad? other).isSome
  rw [hquads, if_neg hne]
  exact h.readable other hmem

/-! ### Whole runs -/

/-- To these moves the cursor replies as a tour over the quads of these records does, in some order,
and takes what the tour takes. -/
def Follows (c : Cursor) (ids : List Nat) (moves : List Move) : Prop :=
  ∃ qs : List Quad, qs.Perm (ids.filterMap c.store.quad?) ∧
    c.replies moves = (⟨qs, c.current.bind c.store.quad?⟩ : Tour).replies moves ∧
    (moves.foldl move c).store.Sound ∧
    ∀ q, (moves.foldl move c).store.Holds q ↔ c.store.Holds q ∧
      q ∉ (⟨qs, c.current.bind c.store.quad?⟩ : Tour).taken moves

lemma Touring.follows_next (h : c.Touring ids) {moves : List Move}
    (hrest : c.next.2.Follows ids.tail moves) : c.Follows ids (.next :: moves) := by
  obtain ⟨hanswer, hstore, hcurrent, -⟩ := h.next
  obtain ⟨qs, hperm, hreplies, hsound, hholds⟩ := hrest
  rw [hstore, hcurrent] at hreplies hholds
  rw [hstore] at hperm
  cases ids with
  | nil =>
    obtain rfl : qs = [] := List.perm_nil.1 hperm
    refine ⟨[], .refl _, ?_, hsound, hholds⟩
    simp only [Cursor.replies, Tour.replies, reply, Tour.reply, hanswer]
    exact congrArg _ hreplies
  | cons id ids =>
    obtain ⟨q, hq⟩ := Option.isSome_iff_exists.1 (h.readable id List.mem_cons_self)
    rw [List.head?_cons, Option.bind_some, hq] at hanswer hreplies hholds
    refine ⟨q :: qs, ?_, ?_, hsound, hholds⟩
    · rw [List.filterMap_cons_some hq]
      exact hperm.cons q
    · simp only [Cursor.replies, Tour.replies, reply, Tour.reply, hanswer]
      exact congrArg _ hreplies

/-- A cursor that stands on nothing removes nothing. -/
lemma remove_of_current_eq_none (h : c.current = none) : c.remove = (false, c) := by
  obtain ⟨s, w, current⟩ := c
  obtain rfl : current = none := h
  rfl

lemma follows_remove_none (h : c.current = none) {moves : List Move}
    (hrest : c.Follows ids moves) : c.Follows ids (.remove :: moves) := by
  have hsame := remove_of_current_eq_none h
  have hmove : c.move .remove = c := congrArg Prod.snd hsame
  obtain ⟨qs, hperm, hreplies, hsound, hholds⟩ := hrest
  rw [h] at hreplies hholds
  rw [← hmove, ← List.foldl_cons] at hsound
  refine ⟨qs, hperm, ?_, hsound, ?_⟩
  · rw [h]
    simp only [Cursor.replies, Tour.replies, reply, Tour.reply, hsame, hmove]
    exact congrArg _ hreplies
  · rw [List.foldl_cons, hmove, h]
    exact hholds

/-- A store that lost one record lost the quad that the record stood for. -/
lemma holds_of_quad?_eq {s s' : QuadStore} (hs : s.Sound) {id : Nat} {q : Quad}
    (hq : s.quad? id = some q)
    (hquads : ∀ other, s'.quad? other = if other = id then none else s.quad? other) (other : Quad) :
    s'.Holds other ↔ s.Holds other ∧ other ≠ q := by
  simp only [QuadStore.Holds, hquads]
  constructor
  · rintro ⟨a, ha⟩
    split at ha
    next => cases ha
    next hne =>
      refine ⟨⟨a, ha⟩, ?_⟩
      rintro rfl
      exact hne (hs.quad?_injective ha hq)
  · rintro ⟨⟨a, ha⟩, hne⟩
    refine ⟨a, ?_⟩
    rw [if_neg, ha]
    rintro rfl
    exact hne (Option.some.inj (ha.symm.trans hq))

/-- The removal may have changed the order of the records to come, but not their quads. -/
lemma Touring.follows_remove_some (h : c.Touring ids) {id : Nat} (hid : c.current = some id)
    {ids' : List Nat} (hids : ids'.Perm ids) {moves : List Move}
    (hrest : c.remove.2.Follows ids' moves) : c.Follows ids (.remove :: moves) := by
  obtain ⟨hanswer, hnone, hquads, -⟩ := h.remove hid
  obtain ⟨hnot, hsome⟩ := h.current id hid
  obtain ⟨q, hq⟩ := Option.isSome_iff_exists.1 hsome
  obtain ⟨qs, hperm, hreplies, hsound, hholds⟩ := hrest
  rw [hnone] at hreplies hholds
  refine ⟨qs, hperm.trans ?_, ?_, hsound, ?_⟩
  · have hsame : ids'.filterMap c.remove.2.store.quad? = ids'.filterMap c.store.quad? := by
      refine List.filterMap_congr ?_
      intro other hother
      have hne : other ≠ id := by
        rintro rfl
        exact hnot (hids.subset hother)
      rw [hquads, if_neg hne]
    rw [hsame]
    exact hids.filterMap _
  · rw [hid, Option.bind_some, hq]
    simp only [Cursor.replies, Tour.replies, reply, Tour.reply, hanswer]
    exact congrArg _ hreplies
  · intro other
    refine (hholds other).trans ?_
    rw [holds_of_quad?_eq h.sound hq hquads, hid, Option.bind_some, hq, Tour.taken,
      List.mem_append, not_or]
    simp only [Option.toList_some, List.mem_singleton, and_assoc]
    rfl

/-- **A cursor replies as a tour does, and takes what the tour takes.** -/
theorem Touring.follows (h : c.Touring ids) (moves : List Move) : c.Follows ids moves := by
  induction moves generalizing c ids with
  | nil => exact ⟨_, .refl _, rfl, h.sound, fun q => by simp [Tour.taken]⟩
  | cons m moves ih =>
    cases m with
    | next =>
      obtain ⟨-, -, -, htouring⟩ := h.next
      exact h.follows_next (ih htouring)
    | remove =>
      cases hcurrent : c.current with
      | none => exact follows_remove_none hcurrent (ih h)
      | some id =>
        obtain ⟨-, -, -, ids', hids, htouring⟩ := h.remove hcurrent
        exact h.follows_remove_some hcurrent hids (ih htouring)

end Cursor

/-! ## Reachable stores -/

variable [Text.Hasher]

/-- **A cursor over a reachable store is a tour over the quads of its pattern**, whatever it removes
and whenever.  Its replies to any moves are those of a walk over a list of the quads that the
pattern admitted at the start, each once; so a first removal after a quad succeeds and any other one
is refused, and after the last quad there is none.  Afterwards the store has lost the quads that were
removed and no others.  Removing each quad on the way is removing the pattern. -/
theorem reached_tour (config : Config) (operations : List Operation) (pattern : Pattern) :
    let s := reached config operations
    let c := Cursor.create s pattern
    (∀ moves : List Move, ∃ qs : List Quad, qs.Nodup ∧
      (∀ q, q ∈ qs ↔ s.contains q = true ∧ pattern.admits q = true) ∧
      c.replies moves = (⟨qs, none⟩ : Tour).replies moves ∧
      (c.replies moves).filterMap MoveReply.quad? = qs.take (moves.count .next) ∧
      ∀ q, (moves.foldl Cursor.move c).store.contains q = true ↔
        s.contains q = true ∧ q ∉ (⟨qs, none⟩ : Tour).taken moves) ∧
    ∀ extra q, ((Tour.rounds (s.count pattern + extra)).foldl Cursor.move c).store.contains q =
      (s.remove pattern).2.contains q := by
  intro s c
  have h : s.Sound := reached_sound config operations
  have hmoves : ∀ moves : List Move, ∃ qs : List Quad, qs.Perm (s.quads pattern) ∧
      c.replies moves = (⟨qs, none⟩ : Tour).replies moves ∧
      ∀ q, (moves.foldl Cursor.move c).store.contains q = true ↔
        s.contains q = true ∧ q ∉ (⟨qs, none⟩ : Tour).taken moves := by
    intro moves
    obtain ⟨qs, hperm, hreplies, hsound, hholds⟩ :=
      (Cursor.create_touring h pattern).follows moves
    refine ⟨qs, hperm, hreplies, ?_⟩
    intro q
    rw [hsound.contains_iff, h.contains_iff]
    exact hholds q
  have hmem : ∀ {qs : List Quad}, qs.Perm (s.quads pattern) →
      ∀ q, q ∈ qs ↔ s.contains q = true ∧ pattern.admits q = true := by
    intro qs hperm q
    rw [hperm.mem_iff, h.mem_quads, h.contains_iff, QuadStore.mem_contents]
  constructor
  · intro moves
    obtain ⟨qs, hperm, hreplies, hcontains⟩ := hmoves moves
    refine ⟨qs, hperm.nodup_iff.2 (h.nodup_quads pattern), hmem hperm, hreplies, ?_, hcontains⟩
    rw [hreplies, Tour.quads_replies]
  · intro extra q
    obtain ⟨qs, hperm, -, hcontains⟩ := hmoves (Tour.rounds (s.count pattern + extra))
    obtain ⟨hsound, hcontents, -⟩ := h.remove pattern
    have hlength : qs.length ≤ s.count pattern + extra := by
      rw [hperm.length_eq, h.count_eq]
      exact Nat.le_add_right _ _
    rw [Bool.eq_iff_iff, hcontains, Tour.taken_rounds, List.take_of_length_le hlength, hmem hperm,
      hsound.contains_iff, ← QuadStore.mem_contents, hcontents, Finset.mem_filter,
      QuadStore.mem_contents, ← h.contains_iff]
    exact and_congr_right fun hq => not_congr (and_iff_right hq)

end QuadBase.Store
