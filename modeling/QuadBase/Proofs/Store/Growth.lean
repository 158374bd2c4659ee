import QuadBase.Proofs.Store.CheckedStore
import QuadBase.Proofs.Store.Turnover

/-!
# Bounded growth

A store that statements are added to and removed from for a long time does not grow without bound.
Records of removed statements are used again before new ones are made, and a sweep frees them before
there are more tombstones than live statements.  The index is only moved into a larger array if the
live statements alone call for it; deletion markers are dropped by moving it into an equal one.

Both bounds are in terms of the *peak*: the largest number of statements live at the same time so
far.  The bound of the index fails in one case.  A statement that is refused because no record number
is left has had the index made ready for it, though it does not count.  This matters for one power of
two only: at a peak of 2863311530, which is a third of 2^33 slots, the index may have been doubled to
2^34 slots, four more than six times the peak.

* `Statements.Grows` — what an addition may allocate, and `Sound.insert_grows` — one insertion.
* `Statements.Fits` — both bounds, and `Operation.run_fits` — every operation keeps them.
* `reached_bounded` — **records and index of a reachable store are bounded by its peak**, but for
  that case, and `index_outgrows_peak` — a history that comes to it.
-/

namespace QuadBase.Store

open QuadBase.Index QuadBase.Rdf QuadStore

/-! ## Sizes of the statements -/

namespace Statements

/-- `s'` comes from `s` by additions.  The last one may have been refused for want of a record
number, `refused` being one then.  In that case more than half of all records are live. -/
structure Grows (s s' : Statements) (refused : Nat) : Prop where
  live_le : s.live ≤ s'.live
  records_le : s'.records.size ≤ max s.records.size (2 * s'.live)
  index_le : s'.index.size ≤ max s.index.size (6 * s'.live + 4 * refused)
  refused_le : 2 ^ 31 * refused ≤ s'.live

/-- `s'` comes from `s` by removals. -/
structure Shrinks (s s' : Statements) : Prop where
  live_le : s'.live ≤ s.live
  records_le : s'.records.size ≤ s.records.size
  index_le : s'.index.size ≤ s.index.size

/-- At most `peak` statements have been live at the same time, in an index of `initial` slots at
first, and `refused` is one if some have been refused for want of a record number. -/
structure Fits (s : Statements) (initial peak refused : Nat) : Prop where
  live_le : s.live ≤ peak
  records_le : s.records.size ≤ 2 * peak
  index_le : s.index.size ≤ max initial (6 * peak + 4 * refused)
  refused_le : 2 ^ 31 * refused ≤ peak

section Sizes

variable {s s' s'' : Statements} {refused more initial peak : Nat}

lemma Grows.refl (s : Statements) : Grows s s 0 :=
  ⟨le_refl _, le_max_left _ _, le_max_left _ _, Nat.zero_le _⟩

lemma Grows.trans (h : Grows s s' 0) (h' : Grows s' s'' refused) : Grows s s'' refused := by
  obtain ⟨hlive, hrecords, hindex, -⟩ := h
  obtain ⟨hlive', hrecords', hindex', hrefused⟩ := h'
  exact ⟨by omega, by omega, by omega, hrefused⟩

lemma Shrinks.refl (s : Statements) : Shrinks s s :=
  ⟨le_refl _, le_refl _, le_refl _⟩

lemma Shrinks.trans (h : Shrinks s s') (h' : Shrinks s' s'') : Shrinks s s'' :=
  ⟨h'.live_le.trans h.live_le, h'.records_le.trans h.records_le, h'.index_le.trans h.index_le⟩

/-- After additions the peak may be what there is now. -/
lemma Fits.grows (h : s.Fits initial peak refused) (hgrows : Grows s s' more) :
    s'.Fits initial (max peak s'.live) (max refused more) := by
  obtain ⟨hlive, hrecords, hindex, hrefused⟩ := h
  obtain ⟨hlive', hrecords', hindex', hrefused'⟩ := hgrows
  exact ⟨by omega, by omega, by omega, by omega⟩

lemma Fits.shrinks (h : s.Fits initial peak refused) (hshrinks : Shrinks s s') :
    s'.Fits initial (max peak s'.live) refused := by
  obtain ⟨hlive, hrecords, hindex, hrefused⟩ := h
  obtain ⟨hlive', hrecords', hindex'⟩ := hshrinks
  exact ⟨by omega, by omega, by omega, by omega⟩

end Sizes

variable [Text.Hasher] {s : Statements}

/-! ## One insertion -/

/-- Making room changes the index only, and takes a larger one only if the live statements and one
more call for it: the old one has at most two slots more than three times the live statements. -/
lemma makeRoom_eq (s : Statements) (terms : PerPosition Nat) (position : Nat) :
    ∃ index used position', s.makeRoom terms position = ({ s with index, used }, position') ∧
      index.size ≤ max s.index.size (6 * s.live + 4) := by
  rw [makeRoom]
  split
  · refine ⟨_, _, _, rfl, ?_⟩
    rw [size_enterAll, rebuiltSize]
    split
    · omega
    · exact le_max_left _ _
  · exact ⟨s.index, s.used, position, rfl, le_max_left _ _⟩

/-- If all record numbers are in use and none is free, more than half of them are live. -/
lemma Sound.half_le_live (h : s.Sound) (hsettled : s.Settled) (hempty : s.free = #[])
    (hfull : capacity ≤ s.records.size) : 2 ^ 31 ≤ s.live := by
  have hsize := h.size_records hsettled
  have hcapacity : capacity = 4294967294 := by decide
  rw [Statements.Settled] at hsettled
  rw [hempty, Array.size_empty] at hsize
  omega

/-- **What an insertion may allocate.**  A new record is made only if none is free, and then all
records but the live ones are tombstones. -/
theorem Sound.insert_grows (h : s.Sound) (hsettled : s.Settled) (terms : PerPosition Nat) :
    match s.insert terms with
    | (.ok _, s') => Grows s s' 0
    | (.error e, s') => e = .capacityExceeded .statements capacity ∧ Grows s s' 1 := by
  by_cases hold : ∃ id, s.terms? id = some terms
  · obtain ⟨id, hid⟩ := hold
    obtain ⟨position, hsearch, -⟩ := h.search_found hid
    rw [insert, hsearch]
    exact .refl s
  · rw [not_exists] at hold
    obtain ⟨position, hsearch, -⟩ := h.search_vacant hold
    obtain ⟨index, used, position', hmake, hindex⟩ := s.makeRoom_eq terms position
    rw [insert, hsearch]
    dsimp only
    rw [hmake]
    dsimp only
    have hentered : ∀ {index' : Array (Slot Nat)}, index'.size = index.size →
        index'.size ≤ max s.index.size (6 * (s.live + 1) + 4 * 0) := by
      intro index' heq
      omega
    rcases takeNumber_cases { s with index, used } with
      ⟨id, free, hfree, htake⟩ | ⟨hempty, -, htake⟩ | ⟨hempty, hfull, htake⟩
    · -- A free number stands for a record that is there.
      have hid : id < s.records.size := by
        refine ((h.unused_iff id).1 (Or.inl ?_)).1
        rw [show s.free = free.push id from hfree]
        exact Array.mem_push_self
      rw [htake]
      refine ⟨Nat.le_succ _, ?_, hentered Array.size_setIfInBounds, Nat.zero_le _⟩
      exact (size_putRecord hid.le).le.trans (max_le (le_max_left _ _) (le_max_of_le_left hid))
    · -- No record is free, so there are less than two for each of the live ones.
      have hnone : s.free.size = 0 := Array.size_eq_zero_iff.2 hempty
      have hsize := h.size_records hsettled
      rw [Statements.Settled] at hsettled
      rw [htake]
      refine ⟨Nat.le_succ _, ?_, hentered Array.size_setIfInBounds, Nat.zero_le _⟩
      refine (size_putRecord (le_refl s.records.size)).le.trans ?_
      change max s.records.size (s.records.size + 1) ≤ max s.records.size (2 * (s.live + 1))
      omega
    · -- The index stays as large as it has been made.
      rw [htake]
      exact ⟨rfl, le_refl _, le_max_left _ _, hindex, h.half_le_live hsettled hempty hfull⟩

/-! ## One removal -/

/-- **A removal allocates nothing.** -/
theorem Sound.remove_shrinks (h : s.Sound) (id : Nat) : Shrinks s (s.remove id).2 := by
  cases hterms : s.terms? id with
  | none =>
    rw [remove, hterms]
    exact .refl s
  | some terms =>
    have hindex := (s.size_index_remove id).le
    obtain ⟨position, hentry, hremove⟩ := h.remove_eq hterms
    have hburied := h.bury hterms hentry
    have hsize : (s.bury terms id position).records.size = s.records.size := size_records_bury
    have hlive : (s.bury terms id position).live ≤ s.live := Nat.sub_le _ _
    rw [hremove] at hindex ⊢
    dsimp only at hindex ⊢
    split
    next hmany =>
      rw [if_pos hmany] at hindex
      obtain ⟨-, -, -, -, hswept⟩ := hburied.sweep
      exact ⟨hswept.le.trans hlive, (hburied.sweep_swept.2.2.2.size_eq.trans hsize).le, hindex⟩
    next hfew =>
      rw [if_neg hfew] at hindex
      exact ⟨hlive, hsize.le, hindex⟩

end Statements

/-! ## Additions -/

/-- The number of statements that a failure leaves without a record number. -/
def StoreError.refused : StoreError → Nat
  | .capacityExceeded .statements _ => 1
  | _ => 0

lemma StoreError.refused_cases (e : StoreError) :
    e.refused = 0 ∨ e.refused = 1 ∧ ∃ limit, e = .capacityExceeded .statements limit := by
  cases e with
  | capacityExceeded stock limit =>
    cases stock with
    | statements => exact Or.inr ⟨rfl, limit, rfl⟩
    | terms => exact Or.inl rfl
  | ambiguousObject first second => exact Or.inl rfl
  | unexpectedObject expected found => exact Or.inl rfl
  | corruption reason => exact Or.inl rfl

namespace QuadStore

variable [Text.Hasher] {s s' : QuadStore} {α β : Type}

omit [Text.Hasher] in
/-- The statements of the store have only been added to. -/
def Growing (s : QuadStore) (c : Change α) : Prop :=
  Leads c (fun e s' => s.statements.Grows s'.statements e.refused)
    fun _ s' => s.statements.Grows s'.statements 0

namespace Growing

omit [Text.Hasher] in
lemma ok (s : QuadStore) (a : α) : Growing s (.ok a, s) :=
  Statements.Grows.refl s.statements

omit [Text.Hasher] in
/-- **Additions compose.**  What is known of the store in between is taken from `done`. -/
lemma andThen {c : Change α} {next : α → QuadStore → Change β}
    {failed : StoreError → QuadStore → Prop} {done : α → QuadStore → Prop} (hc : Growing s c)
    (hdone : Leads c failed done) (hnext : ∀ a s', done a s' → Growing s' (next a s')) :
    Growing s (QuadStore.andThen c next) := by
  obtain ⟨answer, s'⟩ := c
  cases answer with
  | error e => exact hc
  | ok a =>
    have hrest := hnext a s' hdone
    rw [QuadStore.andThen]
    cases hchange : next a s' with
    | mk answer s'' =>
      rw [hchange] at hrest
      cases answer with
      | error e => exact Statements.Grows.trans hc hrest
      | ok b => exact Statements.Grows.trans hc hrest

/-- Interning a term does not touch the statements. -/
lemma internTerm (h : s.Sound) (term : Term) : Growing s (s.internTerm term) := by
  have hreserve : ∀ handles, s.statements.Grows (s.statements.reserve handles) 0 := fun _ =>
    ⟨le_refl _, le_max_left _ _, le_max_left _ _, Nat.zero_le _⟩
  rcases h.terms.intern_cases term with ⟨handle, -, hintern⟩ | ⟨-, -, terms, -, -, hintern⟩ |
    ⟨-, -, hintern⟩
  · rw [QuadStore.internTerm, hintern]
    exact hreserve _
  · rw [QuadStore.internTerm, hintern]
    exact hreserve _
  · rw [QuadStore.internTerm, hintern]
    exact hreserve _

lemma internGraph (h : s.Sound) (graph : GraphName) : Growing s (s.internGraph graph) := by
  cases graph with
  | defaultGraph => exact ok s _
  | named r => exact internTerm h (.resource r)

lemma insertHandles (h : s.Sound) (handles : PerPosition Nat) :
    Growing s (s.insertHandles handles) := by
  have hinsert := h.statements.insert_grows h.settled handles
  rw [QuadStore.insertHandles]
  cases hcase : s.statements.insert handles with
  | mk answer statements =>
    rw [hcase] at hinsert
    cases answer with
    | error e =>
      obtain ⟨rfl, hgrows⟩ := hinsert
      exact hgrows
    | ok added => exact hinsert

lemma link (h : s.Sound) (subject predicate object : Nat) (graph : GraphName) :
    Growing s (s.link subject predicate object graph) :=
  (internGraph h graph).andThen (h.internGraph graph) fun _ _ hdone =>
    insertHandles hdone.1.sound _

lemma linkAll (h : s.Sound) {subject predicate object : Nat} {r : Resource} {i : Iri} {t : Term}
    (hs : s.terms.term? subject = some (.resource r))
    (hp : s.terms.term? predicate = some (.iri i)) (ho : s.terms.term? object = some t)
    (changed : Bool) (graphs : List GraphName) :
    Growing s (s.linkAll subject predicate object changed graphs) := by
  induction graphs generalizing s changed with
  | nil => exact ok s changed
  | cons graph graphs ih =>
    refine (link h subject predicate object graph).andThen (h.link hs hp ho graph) ?_
    rintro added s' ⟨hgains, -⟩
    exact ih hgains.sound (hgains.term?_mono hs) (hgains.term?_mono hp) (hgains.term?_mono ho)
      (changed || added)

lemma add (h : s.Sound) (subject : Resource) (predicate : Iri) (object : Term)
    (graphs : List GraphName) : Growing s (s.add subject predicate object graphs) := by
  refine (internTerm h (.resource subject)).andThen (h.internTerm _) ?_
  rintro hs s₁ ⟨hg₁, hterm₁⟩
  refine (internTerm hg₁.sound (.iri predicate)).andThen (hg₁.sound.internTerm _) ?_
  rintro hp s₂ ⟨hg₂, hterm₂⟩
  refine (internTerm hg₂.sound object).andThen (hg₂.sound.internTerm _) ?_
  rintro ho s₃ ⟨hg₃, hterm₃⟩
  exact linkAll hg₃.sound (hg₃.term?_mono (hg₂.term?_mono hterm₁)) (hg₃.term?_mono hterm₂) hterm₃
    false _

lemma extendFrom (h : s.Sound) (count : Nat) (qs : List Quad) :
    Growing s (s.extendFrom count qs) := by
  induction qs generalizing s count with
  | nil => exact ok s count
  | cons q qs ih =>
    exact (add h q.subject q.predicate q.object [q.graph]).andThen (h.insert q)
      fun added s' hdone => ih hdone.1.sound _

end Growing

/-! ## Removals -/

lemma Sound.removeIds_shrinks (h : s.Sound) (changed : Bool) (ids : List Nat) :
    s.statements.Shrinks (s.removeIds changed ids).2.statements := by
  induction ids generalizing s changed with
  | nil => exact .refl _
  | cons id ids ih => exact (h.statements.remove_shrinks id).trans (ih (h.removeId id).1 _)

omit [Text.Hasher] in
lemma clear_shrinks (s : QuadStore) : s.statements.Shrinks s.clear.statements :=
  ⟨Nat.zero_le _, Nat.zero_le _, (size_emptySlots _).le⟩

lemma Sound.remove_shrinks (h : s.Sound) (pattern : Pattern) :
    s.statements.Shrinks (s.remove pattern).2.statements := by
  rw [QuadStore.remove]
  split
  · exact s.clear_shrinks
  · exact h.removeIds_shrinks false _

lemma Sound.removeQuad_shrinks (h : s.Sound) (q : Quad) :
    s.statements.Shrinks (s.removeQuad q).2.statements := by
  rw [QuadStore.removeQuad]
  cases s.find? q with
  | none => exact .refl _
  | some id => exact h.statements.remove_shrinks id

/-- Moving a cursor removes at most. -/
lemma foldl_move_shrinks {c : Cursor} (h : c.store.Sound) (moves : List Move) :
    c.store.statements.Shrinks (moves.foldl Cursor.move c).store.statements ∧
      (moves.foldl Cursor.move c).store.config = c.store.config := by
  induction moves generalizing c with
  | nil => exact ⟨.refl _, rfl⟩
  | cons move moves ih =>
    obtain ⟨hrest, hconfig⟩ := ih (c.move_sound h move)
    have hmove : c.store.statements.Shrinks (c.move move).store.statements ∧
        (c.move move).store.config = c.store.config := by
      cases move with
      | next => exact ⟨.refl _, rfl⟩
      | remove =>
        obtain ⟨s, walk, current⟩ := c
        cases current with
        | none => exact ⟨.refl _, rfl⟩
        | some id => exact ⟨h.statements.remove_shrinks id, rfl⟩
    exact ⟨hmove.1.trans hrest, hconfig.trans hmove.2⟩

end QuadStore

/-! ## Operations -/

variable [Text.Hasher] {s : QuadStore}

omit [Text.Hasher] in
/-- A change has failed because no record number was left. -/
def RunsOut {α : Type} (c : Change α) : Prop :=
  ∃ limit, c.1 = .error (.capacityExceeded .statements limit)

omit [Text.Hasher] in
/-- Additions keep the bounds, with four slots more only if they run out of record numbers. -/
lemma QuadStore.Growing.fits {α : Type} {c : Change α} {initial peak refused : Nat}
    (h : s.Growing c) (hfits : s.statements.Fits initial peak refused) :
    c.2.statements.Fits initial (max peak c.2.size) refused ∨
      c.2.statements.Fits initial (max peak c.2.size) (max refused 1) ∧ RunsOut c := by
  obtain ⟨answer, s'⟩ := c
  cases answer with
  | ok a =>
    have hgrown := hfits.grows h
    rw [Nat.max_zero] at hgrown
    exact Or.inl hgrown
  | error e =>
    have hgrown := hfits.grows h
    rcases e.refused_cases with hnone | ⟨hone, limit, rfl⟩
    · rw [hnone, Nat.max_zero] at hgrown
      exact Or.inl hgrown
    · rw [hone] at hgrown
      exact Or.inr ⟨hgrown, limit, rfl⟩

/-- An edit adds or removes. -/
lemma Edit.run_growing_or_shrinks (h : s.Sound) (e : Edit) :
    s.Growing (e.run s) ∨ s.statements.Shrinks (e.run s).2.statements := by
  cases e with
  | add subject predicate object graphs =>
    exact Or.inl ((Growing.add h subject predicate object graphs).andThen
      (h.add subject predicate object graphs) fun _ s' _ => Growing.ok s' _)
  | insert q =>
    exact Or.inl ((Growing.add h q.subject q.predicate q.object [q.graph]).andThen
      (h.insert q) fun _ s' _ => Growing.ok s' _)
  | extend qs =>
    exact Or.inl ((Growing.extendFrom h 0 qs).andThen (h.extendFrom 0 qs)
      fun _ s' _ => Growing.ok s' _)
  | remove pattern => exact Or.inr (h.remove_shrinks pattern)
  | removeQuad q => exact Or.inr (h.removeQuad_shrinks q)
  | clear => exact Or.inr s.clear_shrinks

/-- The copy that a filter makes is a store of its own. -/
lemma QuadStore.filter_fits {pattern : Pattern} {copy : QuadStore}
    (h : s.filter pattern = (.ok (), copy)) :
    copy.statements.Fits (create s.config).statements.index.size copy.size 0 ∧
      copy.config = s.config := by
  have hgrowing := Growing.extendFrom (create_sound s.config) 0 (s.quads pattern)
  have hkept := Kept.extendFrom (create s.config) 0 (s.quads pattern)
  rw [QuadStore.filter, QuadStore.extend] at h
  cases hextend : (create s.config).extendFrom 0 (s.quads pattern) with
  | mk answer copied =>
    rw [hextend] at h hgrowing hkept
    cases answer with
    | error e => cases h
    | ok count =>
      obtain rfl := (Prod.mk.inj h).2
      have hempty : (create s.config).statements.Fits
          (create s.config).statements.index.size 0 0 :=
        ⟨le_refl _, le_refl _, le_max_left _ _, le_refl _⟩
      have hgrown := hempty.grows hgrowing
      rw [Nat.zero_max] at hgrown
      exact ⟨hgrown, hkept.config_eq⟩

/-- **Every operation keeps the bounds**, with four slots more only if it is an edit that runs out of
record numbers, or if there have been some more before. -/
theorem Operation.run_fits (h : s.Sound) {peak refused : Nat}
    (hfits : s.statements.Fits (create s.config).statements.index.size peak refused)
    (operation : Operation) :
    (operation.run s).config = s.config ∧ ∃ refused',
      (operation.run s).statements.Fits (create s.config).statements.index.size
        (operation.peak s peak) refused' ∧
      (refused' ≤ refused ∨ refused' = max refused 1 ∧ ∃ e, operation = .edit e ∧
        RunsOut (e.run s)) := by
  cases operation with
  | edit e =>
    refine ⟨(Kept.edit s e).config_eq, ?_⟩
    rcases e.run_growing_or_shrinks h with hgrowing | hshrinks
    · rcases hgrowing.fits hfits with hsame | ⟨hmore, hout⟩
      · exact ⟨refused, hsame, Or.inl (le_refl _)⟩
      · exact ⟨max refused 1, hmore, Or.inr ⟨rfl, e, rfl, hout⟩⟩
    · exact ⟨refused, hfits.shrinks hshrinks, Or.inl (le_refl _)⟩
  | walk pattern moves =>
    have hcursor : (Cursor.create s pattern).store.Sound := h
    obtain ⟨hshrinks, hconfig⟩ := foldl_move_shrinks hcursor moves
    exact ⟨hconfig, refused, hfits.shrinks hshrinks, Or.inl (le_refl _)⟩
  | filter pattern =>
    rw [Operation.run, Operation.peak]
    cases hfilter : s.filter pattern with
    | mk answer copy =>
      cases answer with
      | error error => exact ⟨rfl, refused, hfits, Or.inl (le_refl _)⟩
      | ok =>
        obtain ⟨hcopy, hconfig⟩ := filter_fits hfilter
        exact ⟨hconfig, 0, hcopy, Or.inl (Nat.zero_le _)⟩
  | setNamespace abbreviation space =>
    exact ⟨rfl, refused, hfits.shrinks (.refl s.statements), Or.inl (le_refl _)⟩
  | eraseNamespace abbreviation =>
    exact ⟨rfl, refused, hfits.shrinks (.refl s.statements), Or.inl (le_refl _)⟩

/-! ## Histories -/

/-- Some edit so far has failed because no record number was left. -/
def RanOut (config : Config) (operations : List Operation) : Prop :=
  ∃ before e, before ++ [.edit e] <+: operations ∧ RunsOut (e.run (reached config before))

lemma RanOut.concat {config : Config} {operations : List Operation}
    (h : RanOut config operations) (operation : Operation) :
    RanOut config (operations ++ [operation]) := by
  obtain ⟨before, e, hbefore, hout⟩ := h
  exact ⟨before, e, hbefore.trans (List.prefix_append _ _), hout⟩

/-- The bounds of a reachable store, as its operations keep them. -/
lemma reached_fits (config : Config) (operations : List Operation) :
    (reached config operations).config = config ∧ ∃ refused,
      (reached config operations).statements.Fits (create config).statements.index.size
        (peak config operations) refused ∧
      (refused = 0 ∨ refused = 1 ∧ RanOut config operations) := by
  induction operations using List.reverseRecOn with
  | nil => exact ⟨rfl, 0, ⟨le_refl _, le_refl _, le_max_left _ _, le_refl _⟩, Or.inl rfl⟩
  | append_singleton operations operation ih =>
    obtain ⟨hconfig, refused, hfits, hrefused⟩ := ih
    rw [reached_concat, peak_concat]
    obtain ⟨hconfig', refused', hfits', hrefused'⟩ :=
      Operation.run_fits (reached_sound config operations) (by rw [hconfig]; exact hfits) operation
    rw [hconfig] at hconfig' hfits'
    refine ⟨hconfig', refused', hfits', ?_⟩
    rcases hrefused' with hle | ⟨heq, e, rfl, hout⟩
    · rcases hrefused with rfl | ⟨rfl, hout⟩
      · exact Or.inl (Nat.le_zero.1 hle)
      · rcases Nat.le_one_iff_eq_zero_or_eq_one.1 hle with hnone | hone
        · exact Or.inl hnone
        · exact Or.inr ⟨hone, hout.concat _⟩
    · exact Or.inr ⟨by omega, operations, e, List.prefix_refl _, hout⟩

/-- There are fewer statements than record numbers at any time. -/
lemma peak_le_capacity (config : Config) (operations : List Operation) :
    peak config operations ≤ Statements.capacity := by
  obtain ⟨before, -, hsize⟩ := exists_size_eq_peak config operations
  have hoccurs := reached_occurs config before
  have hrecords := hoccurs.sound.statements.size_records hoccurs.sound.settled
  have hbound := hoccurs.bounded.size_le
  rw [← hsize, size]
  omega

omit [Text.Hasher] in
/-- A power of two between six times the statements and four more, where more than half of all
record numbers are in use. -/
lemma eq_of_isPowerOfTwo {size peak : Nat} (hpower : size.isPowerOfTwo) (hlower : 6 * peak < size)
    (hupper : size ≤ 6 * peak + 4) (hhalf : 2 ^ 31 ≤ peak) (hcapacity : peak ≤ Statements.capacity) :
    size = 2 ^ 34 ∧ peak = 2863311530 := by
  have hbound : Statements.capacity = 4294967294 := by decide
  obtain ⟨k, rfl⟩ := hpower
  obtain rfl : k = 34 := by
    have hbelow : k < 35 := (Nat.pow_lt_pow_iff_right (by decide : 1 < 2)).1 (by omega)
    have habove : 33 < k := (Nat.pow_lt_pow_iff_right (by decide : 1 < 2)).1 (by omega)
    omega
  exact ⟨rfl, by omega⟩

/-- **The peak bounds what a history allocates.**  However much has been added and removed in total,
the records of a reachable store, whether live, removed or free, are at most twice as many as the
statements at the peak, and its index has at most six times as many slots, or as many as it had at
first.  There is one exception: with a peak of 2863311530 statements, the index may have 2^34 slots,
four more than that, once a statement has been refused since all record numbers were in use. -/
theorem reached_bounded (config : Config) (operations : List Operation) :
    let s := reached config operations
    let P := peak config operations
    (s.size ≤ P ∧ ∃ before, before <+: operations ∧ (reached config before).size = P) ∧
      s.statements.records.size =
        s.statements.live + s.statements.zombies.size + s.statements.free.size ∧
      s.statements.records.size ≤ 2 * P ∧
      (s.statements.index.size ≤ max (create config).statements.index.size (6 * P) ∨
        RanOut config operations ∧ P = 2863311530 ∧ s.statements.index.size = 2 ^ 34) := by
  intro s P
  have hsound := reached_sound config operations
  obtain ⟨-, refused, hfits, hrefused⟩ := reached_fits config operations
  have hindex : s.statements.index.size ≤
      max (create config).statements.index.size (6 * P + 4 * refused) := hfits.index_le
  refine ⟨⟨hfits.live_le, exists_size_eq_peak config operations⟩,
    hsound.statements.size_records hsound.settled, hfits.records_le, ?_⟩
  by_cases hsmall : s.statements.index.size ≤ max (create config).statements.index.size (6 * P)
  · exact Or.inl hsmall
  · rcases hrefused with rfl | ⟨rfl, hout⟩
    · exact absurd hindex hsmall
    · have hpower : s.statements.index.size.isPowerOfTwo :=
        (reached_occurs config operations).isPowerOfTwo.2
      obtain ⟨hsize, hpeak⟩ := eq_of_isPowerOfTwo hpower (by omega) (by omega) hfits.refused_le
        (peak_le_capacity config operations)
      exact Or.inr ⟨hout, hpeak, hsize⟩

omit [Text.Hasher] in
/-- The exception does occur.  The store is made for as many statements as there are record numbers,
its index has 2^33 slots, and a hasher leads each of 2^33 quads to a slot of its own.  When all
numbers are in use, one more quad is refused, and the index has been doubled for it. -/
theorem index_outgrows_peak :
    let hasher := Turnover.byDigits 2048
    let initial := (create Turnover.ample).statements.index.size
    let P := @peak hasher Turnover.ample Turnover.exhausting
    let slots := (@reached hasher Turnover.ample Turnover.exhausting).statements.index.size
    initial = 2 ^ 33 ∧ P = 2863311530 ∧ slots = 2 ^ 34 ∧ ¬ slots ≤ max initial (6 * P) ∧
      @RanOut hasher Turnover.ample Turnover.exhausting := by
  intro hasher initial P slots
  obtain ⟨hindex, hpeak⟩ := @Turnover.overflow_exhausting hasher Turnover.spreads_byDigits
  have hinitial : initial = 2048 * 2048 * 2048 := (size_emptySlots _).trans Turnover.slots_ample
  have hP : P = 2863311530 := hpeak
  have hslots : slots = 2 ^ 34 := hindex
  refine ⟨by omega, hP, hslots, by omega, ?_⟩
  obtain ⟨-, refused, hfits, hrefused⟩ := @reached_fits hasher Turnover.ample Turnover.exhausting
  have hbound : slots ≤ max initial (6 * P + 4 * refused) := hfits.index_le
  rcases hrefused with hnone | ⟨-, hout⟩
  · omega
  · exact hout

end QuadBase.Store
