import QuadBase.Proofs.Store.Peak
import QuadBase.Proofs.Tables

/-!
# Turnover

Numbered quads are added to a store one after the other and removed in the same order, so that it
always holds those in between, like a queue.  Under a hasher that leads each of them to a slot of its
own, no deletion marker is on the way of a quad that comes later, and none is used again.  So the
index remembers all quads that have ever come, although the store holds but few of them.

* `Spreads` — a hasher of that kind, and `byDigits` — an example.
* `Statements.Queued` — what is where in the index of such a store, and how many numbers of records
  wait for a sweep or are free.  `Queued.insert` and `Queued.remove` say what the next quad to come
  and the next one to go do, `Queued.insert_refused` what happens if there is no number left.
* `Turned` — a history that led to such a store, with a bound of its peak.  `Turned.arriveAll`,
  `Turned.departAll` and `Turned.departHalf` are for many quads at a time.
* `overflow_exhausting` — **a history after which the index has been doubled for a quad that was
  refused.**
-/

namespace QuadBase.Store

open QuadBase.Index QuadBase.Rdf

/-! ## Numbered quads -/

namespace Turnover

def iri (i : Nat) : Iri :=
  ⟨String.ofList ('t' :: Nat.toDigits 10 i)⟩

def term (i : Nat) : Term :=
  .resource (.iri (iri i))

/-- The quad of a number: its digits to the base `b`, each as a term, in the default graph. -/
def quad (b k : Nat) : Quad :=
  ⟨.iri (iri (k / (b * b))), iri (k / b % b), term (k % b), .defaultGraph⟩

/-- The handles of this quad if the terms have been interned in order. -/
def handles (b k : Nat) : PerPosition Nat :=
  ⟨k / (b * b) + 1, k / b % b + 1, k % b + 1, TermTable.defaultGraph⟩

lemma term_injective : Function.Injective term := by
  intro i j h
  have htext : ('t' :: Nat.toDigits 10 i) = 't' :: Nat.toDigits 10 j :=
    String.ofList_injective (congrArg Iri.text (Resource.iri.inj (Term.resource.inj h)))
  have hvalue := congrArg (Nat.ofDigitChars 10 · 0) (List.cons.inj htext).2
  rwa [Nat.ofDigitChars_ten_toDigits, Nat.ofDigitChars_ten_toDigits] at hvalue

variable {b k : Nat}

lemma digits_lt (hk : k < b * b * b) : k / (b * b) < b ∧ k / b % b < b ∧ k % b < b := by
  have hb : 0 < b := Nat.pos_of_ne_zero fun h => by simp [h] at hk
  exact ⟨Nat.div_lt_of_lt_mul hk, Nat.mod_lt _ hb, Nat.mod_lt _ hb⟩

lemma digits_le (b k : Nat) : k / (b * b) ≤ k ∧ k / b % b ≤ k ∧ k % b ≤ k :=
  ⟨Nat.div_le_self _ _, (Nat.mod_le _ _).trans (Nat.div_le_self _ _), Nat.mod_le _ _⟩

/-- In an index with a slot for each number, the search for a numbered quad starts at the slot of its
number. -/
def Spreads [Text.Hasher] (b : Nat) : Prop :=
  ∀ k < b * b * b, Statements.hashTerms (handles b k) % (b * b * b) = k

lemma Spreads.handles_injective [Text.Hasher] (h : Spreads b) {j : Nat} (hj : j < b * b * b)
    (hk : k < b * b * b) (heq : handles b j = handles b k) : j = k := by
  rw [← h j hj, heq, h k hk]

/-! ## Terms in order -/

/-- The first `n` terms have been interned in order, and no others. -/
def Named (t : TermTable) (n : Nat) : Prop :=
  t.terms.toList = (List.range n).map term

namespace Named

variable {t : TermTable} {n i : Nat}

lemma size_eq (h : Named t n) : t.size = n + 1 := by
  rw [TermTable.size, ← Array.length_toList, h, List.length_map, List.length_range]

lemma term?_eq (h : Named t n) (hi : i < n) : t.term? (i + 1) = some (term i) := by
  refine TermTable.term?_eq_some_iff.2 ⟨Nat.succ_pos i, ?_⟩
  rw [Nat.add_sub_cancel, ← Array.getElem?_toList, h, List.getElem?_map, List.getElem?_range hi]
  rfl

/-- The next term has no handle yet. -/
lemma term?_ne (h : Named t n) (handle : Nat) : t.term? handle ≠ some (term n) := by
  intro hterm
  have hget := (TermTable.term?_eq_some_iff.1 hterm).2
  rw [← Array.getElem?_toList, h, List.getElem?_map, Option.map_eq_some_iff] at hget
  obtain ⟨i, hi, hsame⟩ := hget
  have hlt := List.mem_range.1 (List.mem_of_getElem? hi)
  exact hlt.ne (term_injective hsame)

lemma quadOf?_eq (h : Named t n) (hs : k / (b * b) < n) (hp : k / b % b < n) (ho : k % b < n) :
    QuadStore.quadOf? t (handles b k) = some (quad b k) :=
  QuadStore.quadOf?_eq_some_iff.2 ⟨h.term?_eq hs, h.term?_eq hp, h.term?_eq ho, rfl⟩

/-- Interning one of the terms, or the next one, keeps them in order. -/
lemma intern [Text.Hasher] (h : Named t n) (hs : t.Sound) (hi : i ≤ n)
    (hroom : n + 1 < TermTable.capacity) :
    ∃ t', t.intern (term i) = (.ok (i + 1), t') ∧ Named t' (max n (i + 1)) := by
  rcases hs.intern_cases (term i) with ⟨handle, hterm, hintern⟩ |
    ⟨hnew, -, t', -, hpush, hintern⟩ | ⟨-, hfull, -⟩
  · have hlt : i < n := hi.lt_of_ne fun heq => h.term?_ne handle (heq ▸ hterm)
    obtain rfl : handle = i + 1 := hs.injective hterm (h.term?_eq hlt)
    exact ⟨t, hintern, by rwa [Nat.max_eq_left hlt]⟩
  · obtain rfl : i = n := hi.eq_of_not_lt fun hlt =>
      hs.handle?_eq_none_iff.1 hnew (i + 1) (h.term?_eq hlt)
    refine ⟨t', h.size_eq ▸ hintern, ?_⟩
    rw [Nat.max_eq_right (Nat.le_succ i), Named, hpush, Array.toList_push, h, List.range_succ,
      List.map_append]
    rfl
  · rw [h.size_eq] at hfull
    exact absurd hroom (Nat.not_lt.2 hfull)

end Named

end Turnover

/-! ## Statements in order -/

namespace Statements

open Turnover

/-- The quads numbered up to `come` have come, those up to `gone` have gone again, and each has taken
the index slot of its number.  So many numbers of records wait for a sweep, and so many are free. -/
structure Queued (s : Statements) (b gone come zombies free : Nat) : Prop where
  size_eq : s.index.size = b * b * b
  used_eq : s.used = come
  live_eq : s.live + gone = come
  zombies_eq : s.zombies.size = zombies
  free_eq : s.free.size = free
  entry : ∀ k, gone ≤ k → k < come →
    ∃ id, s.index[k]? = some (.entry id) ∧ s.terms? id = some (handles b k)
  empty : ∀ k, come ≤ k → k < b * b * b → s.index[k]? = some .empty

namespace Queued

variable {s : Statements} {b gone come zombies free id position : Nat}

lemma withFree (h : s.Queued b gone come zombies free) (numbers : Array Nat) :
    Queued { s with free := numbers } b gone come zombies numbers.size :=
  ⟨h.size_eq, h.used_eq, h.live_eq, h.zombies_eq, rfl, h.entry, h.empty⟩

lemma reserve (h : s.Queued b gone come zombies free) (handles : Nat) :
    (s.reserve handles).Queued b gone come zombies free :=
  ⟨h.size_eq, h.used_eq, h.live_eq, h.zombies_eq, h.free_eq, h.entry, h.empty⟩

/-- The next quad to come is entered at the slot of its number. -/
lemma enter (h : s.Queued b gone come zombies free) (hcome : come < b * b * b)
    (hid : id ≤ s.records.size) (hdead : s.terms? id = none) :
    (s.enter (handles b come) id come).Queued b gone (come + 1) zombies free := by
  have hlive := h.live_eq
  have hslots : ∀ k, (s.enter (handles b come) id come).index[k]? =
      if come = k then some (.entry id) else s.index[k]? := fun k => by
    refine Array.getElem?_setIfInBounds.trans ?_
    rw [h.size_eq, if_pos hcome]
  refine ⟨Array.size_setIfInBounds.trans h.size_eq, ?_, ?_, h.zombies_eq, h.free_eq, ?_, ?_⟩
  · change (if s.index[come]? = some .empty then s.used + 1 else s.used) = come + 1
    rw [if_pos (h.empty come (le_refl _) hcome), h.used_eq]
  · change s.live + 1 + gone = come + 1
    omega
  · intro k hgone hk
    by_cases heq : come = k
    · exact ⟨id, by rw [hslots, if_pos heq], by rw [terms?_enter hid, if_pos rfl, heq]⟩
    · obtain ⟨other, hslot, hterms⟩ := h.entry k hgone (by omega)
      have hne : other ≠ id := fun hsame => by
        rw [hsame, hdead] at hterms
        cases hterms
      exact ⟨other, by rwa [hslots, if_neg heq], by rwa [terms?_enter hid, if_neg hne]⟩
  · intro k hk hsize
    rw [hslots, if_neg (by omega)]
    exact h.empty k (by omega) hsize

/-- A sweep frees the numbers that wait for it. -/
lemma sweep [Text.Hasher] (hs : s.Sound) (h : s.Queued b gone come zombies free) :
    s.sweep.Queued b gone come 0 (free + zombies) := by
  obtain ⟨-, hterms, -, hzombies, hlive⟩ := hs.sweep
  have hindex : s.sweep.index = s.index := by rw [sweep_eq]
  have hused : s.sweep.used = s.used := by rw [sweep_eq]
  have hfree : s.sweep.free = s.free ++ s.zombies := by rw [sweep_eq]
  refine ⟨hindex ▸ h.size_eq, hused ▸ h.used_eq, hlive ▸ h.live_eq, by rw [hzombies]; rfl, ?_, ?_,
    hindex ▸ h.empty⟩
  · rw [hfree, Array.size_append, h.free_eq, h.zombies_eq]
  · intro k hgone hk
    rw [hindex]
    obtain ⟨id, hslot, hid⟩ := h.entry k hgone hk
    exact ⟨id, hslot, (hterms id).trans hid⟩

section Spread

variable [Text.Hasher]

/-- The search for the next quad to come ends at once, at the slot of its number. -/
lemma search_eq (h : s.Queued b gone come zombies free) (hspread : Spreads b)
    (hcome : come < b * b * b) : s.search (handles b come) = .vacant come := by
  have hstart : hashTerms (handles b come) % s.index.size = come := by
    rw [h.size_eq, hspread come hcome]
  have hempty := h.empty come (le_refl _) hcome
  rw [← hstart] at hempty
  rw [search, probe_eq_vacant hempty, hstart]

/-- **The next quad comes**, if the index has room and there is a number for its record. -/
theorem insert (hs : s.Sound) (hsettled : s.Settled) (h : s.Queued b gone come zombies free)
    (hspread : Spreads b) (hroom : (come + 1) * 3 ≤ b * b * b * 2)
    (hnumber : 0 < free ∨ come - gone + zombies + free < capacity) :
    (s.insert (handles b come)).2.Queued b gone (come + 1) zombies (free - 1) := by
  have hcome : come < b * b * b := by omega
  have hstay : s.makeRoom (handles b come) come = (s, come) := by
    rw [makeRoom, if_neg]
    rintro ⟨-, hcrowded⟩
    rw [h.used_eq, h.size_eq, isCrowded_eq_false_iff.2 hroom] at hcrowded
    cases hcrowded
  rw [Statements.insert, h.search_eq hspread hcome]
  dsimp only
  rw [hstay]
  dsimp only
  rcases s.takeNumber_cases with ⟨id, rest, hfree, htake⟩ | ⟨hempty, -, htake⟩ |
    ⟨hempty, hfull, -⟩
  · have hid := (hs.unused_iff id).1 (Or.inl (hfree ▸ Array.mem_push_self))
    have hrest : rest.size = free - 1 := by rw [← h.free_eq, hfree, Array.size_push]; rfl
    rw [htake, ← hrest]
    exact (h.withFree rest).enter hcome hid.1.le hid.2
  · have hnone : free = 0 := by rw [← h.free_eq, hempty]; rfl
    have hunused : s.terms? s.records.size = none := by
      rw [terms?, Array.getElem?_eq_none (le_refl _)]
      rfl
    subst hnone
    rw [htake]
    exact h.enter hcome (le_refl _) hunused
  · have hnone : free = 0 := by rw [← h.free_eq, hempty]; rfl
    have hsize := hs.size_records hsettled
    have hlive := h.live_eq
    rw [h.free_eq, h.zombies_eq] at hsize
    omega

/-- **A quad that comes too late.**  It has no number, but the index is made ready for it. -/
theorem insert_refused (hs : s.Sound) (hsettled : s.Settled) (h : s.Queued b gone come zombies 0)
    (hspread : Spreads b) (hcome : come < b * b * b) (hcrowded : b * b * b * 2 < (come + 1) * 3)
    (hfull : capacity ≤ come - gone + zombies) :
    s.insert (handles b come) = (.error (.capacityExceeded .statements capacity),
      s.rebuildIndex) := by
  have hempty := h.empty come (le_refl _) hcome
  have hcount : isCrowded (s.used + 1) s.index.size = true := by
    rw [isCrowded, h.used_eq, h.size_eq, decide_eq_true hcrowded]
  have hsize := hs.size_records hsettled
  have hlive := h.live_eq
  rw [h.free_eq, h.zombies_eq] at hsize
  rw [Statements.insert, h.search_eq hspread hcome]
  dsimp only
  rw [makeRoom, if_pos ⟨hempty, hcount⟩]
  dsimp only
  rcases s.rebuildIndex.takeNumber_cases with ⟨id, rest, hfree, -⟩ | ⟨-, hroom, -⟩ |
    ⟨-, -, htake⟩
  · have hnone : (rest.push id).size = 0 := by
      rw [← show s.free = rest.push id from hfree, h.free_eq]
    rw [Array.size_push] at hnone
    cases hnone
  · have hroom' : s.records.size < capacity := hroom
    omega
  · rw [htake]

/-- The oldest quad is made a tombstone. -/
lemma bury (h : s.Queued b gone come zombies free) (hspread : Spreads b) (hgone : gone < come)
    (hcome : come ≤ b * b * b) (hterms : s.terms? id = some (handles b gone))
    (hslot : s.index[position]? = some (.entry id)) :
    (s.bury (handles b gone) id position).Queued b (gone + 1) come (zombies + 1) free := by
  have hlive := h.live_eq
  have hslots : ∀ k, position ≠ k →
      (s.bury (handles b gone) id position).index[k]? = s.index[k]? := fun k hne =>
    Array.getElem?_setIfInBounds_ne hne
  refine ⟨Array.size_setIfInBounds.trans h.size_eq, h.used_eq, ?_, ?_, h.free_eq, ?_, ?_⟩
  · change s.live - 1 + (gone + 1) = come
    omega
  · change (s.zombies.push id).size = zombies + 1
    rw [Array.size_push, h.zombies_eq]
  · intro k hk hk'
    obtain ⟨other, hother, hhandles⟩ := h.entry k (by omega) hk'
    have hne : other ≠ id := fun hsame => by
      rw [hsame, hterms] at hhandles
      have heq := hspread.handles_injective (by omega) (by omega) (Option.some.inj hhandles)
      omega
    refine ⟨other, ?_, by rwa [terms?_bury, if_neg hne]⟩
    rw [hslots k fun heq => ?_]
    · exact hother
    · rw [heq, hother] at hslot
      exact hne (Slot.entry.inj (Option.some.inj hslot))
  · intro k hk hk'
    have hempty := h.empty k hk hk'
    rw [hslots k fun heq => ?_]
    · exact hempty
    · rw [heq, hempty] at hslot
      cases hslot

/-- **The oldest quad goes.**  If there are then as many tombstones as live records, a sweep frees
their numbers. -/
theorem remove (hs : s.Sound) (h : s.Queued b gone come zombies free) (hspread : Spreads b)
    (hgone : gone < come) (hterms : s.terms? id = some (handles b gone)) :
    if come ≤ gone + zombies + 2 then
      (s.remove id).2.Queued b (gone + 1) come 0 (free + (zombies + 1))
    else (s.remove id).2.Queued b (gone + 1) come (zombies + 1) free := by
  have huncrowded := hs.uncrowded
  rw [h.used_eq, h.size_eq] at huncrowded
  obtain ⟨position, hslot, hremove⟩ := hs.remove_eq hterms
  have hburied := h.bury hspread hgone (by omega) hterms hslot
  have hlive := hburied.live_eq
  rw [hremove]
  dsimp only
  rw [hburied.zombies_eq]
  split
  next hmany =>
    rw [if_pos (by omega)]
    exact hburied.sweep (hs.bury hterms hslot)
  next hfew =>
    rw [if_neg (by omega)]
    exact hburied

end Spread

end Queued

end Statements

/-! ## Histories in order -/

namespace Turnover

variable {b k : Nat}

def arrival (b k : Nat) : Operation :=
  .edit (.insert (quad b k))

def departure (b k : Nat) : Operation :=
  .edit (.removeQuad (quad b k))

/-- The next `n` quads come. -/
def arrivals (b come n : Nat) : List Operation :=
  (List.range' come n).map (arrival b)

/-- The oldest `n` quads go. -/
def departures (b gone n : Nat) : List Operation :=
  (List.range' gone n).map (departure b)

lemma arrivals_succ (b come n : Nat) :
    arrivals b come (n + 1) = arrivals b come n ++ [arrival b (come + n)] := by
  rw [arrivals, List.range'_1_concat, List.map_append]
  rfl

lemma departures_succ (b gone n : Nat) :
    departures b gone (n + 1) = departures b gone n ++ [departure b (gone + n)] := by
  rw [departures, List.range'_1_concat, List.map_append]
  rfl

end Turnover

section Turned

open Turnover QuadStore

variable [Text.Hasher] {config : Config} {operations : List Operation}
  {b bound gone come zombies free : Nat}

/-- The terms and the statements of a store through which numbered quads have passed. -/
structure QuadStore.Queued (s : QuadStore) (b gone come zombies free : Nat) : Prop where
  sound : s.Sound
  named : Named s.terms (min come b)
  statements : s.statements.Queued b gone come zombies free

omit [Text.Hasher] in
lemma QuadStore.snd_andThen {α β : Type} (c : Change α) (reply : α → β) :
    (andThen c fun a s => (.ok (reply a), s)).2 = c.2 := by
  obtain ⟨_ | _, s⟩ := c <;> rfl

lemma QuadStore.linkAll_default (s : QuadStore) (subject predicate object : Nat) :
    (s.linkAll subject predicate object false [.defaultGraph]).2 =
      (s.insertHandles ⟨subject, predicate, object, TermTable.defaultGraph⟩).2 := by
  rw [linkAll, link, internGraph]
  dsimp only [andThen]
  rcases s.insertHandles ⟨subject, predicate, object, TermTable.defaultGraph⟩ with ⟨_ | _, s'⟩ <;>
    rfl

/-- Interning a term of the next quad does nothing to the statements. -/
lemma QuadStore.internTerm_named {s : QuadStore} {n i : Nat} (hs : s.Sound) (hn : Named s.terms n)
    (h : s.statements.Queued b gone come zombies free) (hi : i ≤ n)
    (hroom : n + 1 < TermTable.capacity) :
    ∃ s' : QuadStore, s.internTerm (term i) = (.ok (i + 1), s') ∧ s'.Sound ∧
      Named s'.terms (max n (i + 1)) ∧ s'.statements.Queued b gone come zombies free := by
  have hgains := hs.internTerm (term i)
  obtain ⟨terms, hintern, hterms⟩ := hn.intern hs.terms hi hroom
  rw [QuadStore.internTerm, hintern] at hgains
  exact ⟨_, by rw [QuadStore.internTerm, hintern], hgains.1.sound, hterms, h.reserve _⟩

namespace QuadStore.Queued

variable {s : QuadStore}

/-- Adding the next quad interns its terms and then inserts its handles. -/
lemma insert_eq (h : s.Queued b gone come zombies free) (hcome : come < b * b * b)
    (hterms : b + 1 < TermTable.capacity) :
    ∃ s' : QuadStore, ((Edit.insert (quad b come)).run s).2 = (s'.insertHandles (handles b come)).2 ∧
      s'.Sound ∧ Named s'.terms (min (come + 1) b) ∧
      s'.statements.Queued b gone come zombies free := by
  obtain ⟨hs, hp, ho⟩ := digits_lt hcome
  obtain ⟨hs', hp', ho'⟩ := digits_le b come
  obtain ⟨s₁, h₁, hsound₁, hnamed₁, hqueued₁⟩ := internTerm_named h.sound h.named h.statements
    (le_min hs' hs.le) (by omega)
  obtain ⟨s₂, h₂, hsound₂, hnamed₂, hqueued₂⟩ := internTerm_named hsound₁ hnamed₁ hqueued₁
    (le_max_of_le_left (le_min hp' hp.le)) (by omega)
  obtain ⟨s₃, h₃, hsound₃, hnamed₃, hqueued₃⟩ := internTerm_named hsound₂ hnamed₂ hqueued₂
    (le_max_of_le_left (le_max_of_le_left (le_min ho' ho.le))) (by omega)
  refine ⟨s₃, ?_, hsound₃, ?_, hqueued₃⟩
  · rw [Edit.run, snd_andThen, QuadStore.insert, QuadStore.add,
      show s.internTerm (.resource (quad b come).subject) = _ from h₁]
    dsimp only [andThen]
    rw [show s₁.internTerm (.iri (quad b come).predicate) = _ from h₂]
    dsimp only
    rw [show s₂.internTerm (quad b come).object = _ from h₃]
    exact s₃.linkAll_default _ _ _
  · -- one of the first `b` quads brings the next term as its object, later ones bring none
    have hobject : come < b → come % b = come := Nat.mod_eq_of_lt
    have hcount : max (max (max (min come b) (come / (b * b) + 1)) (come / b % b + 1))
        (come % b + 1) = min (come + 1) b := by omega
    rwa [hcount] at hnamed₃

/-- **The next quad comes.** -/
lemma insert (h : s.Queued b gone come zombies free) (hspread : Spreads b)
    (hterms : b + 1 < TermTable.capacity) (hroom : (come + 1) * 3 ≤ b * b * b * 2)
    (hnumber : 0 < free ∨ come - gone + zombies + free < Statements.capacity) :
    ((Edit.insert (quad b come)).run s).2.Queued b gone (come + 1) zombies (free - 1) := by
  obtain ⟨s', heq, hsound, hnamed, hqueued⟩ := h.insert_eq (by omega) hterms
  refine ⟨Edit.run_sound h.sound _, ?_, ?_⟩
  · rw [heq]
    exact hnamed
  · rw [heq]
    exact hqueued.insert hsound.statements hsound.settled hspread hroom hnumber

/-- **The oldest quad goes.** -/
lemma removeQuad (h : s.Queued b gone come zombies free) (hspread : Spreads b)
    (hgone : gone < come) :
    let s' := ((Edit.removeQuad (quad b gone)).run s).2
    if come ≤ gone + zombies + 2 then s'.Queued b (gone + 1) come 0 (free + (zombies + 1))
    else s'.Queued b (gone + 1) come (zombies + 1) free := by
  intro s'
  have huncrowded := h.sound.statements.uncrowded
  rw [h.statements.used_eq, h.statements.size_eq] at huncrowded
  obtain ⟨hs, hp, ho⟩ := digits_lt (show gone < b * b * b by omega)
  obtain ⟨hs', hp', ho'⟩ := digits_le b gone
  obtain ⟨id, -, hid⟩ := h.statements.entry gone (le_refl _) hgone
  have hquad := h.named.quadOf?_eq (lt_min (hs'.trans_lt hgone) hs)
    (lt_min (hp'.trans_lt hgone) hp) (lt_min (ho'.trans_lt hgone) ho)
  have hfind := h.sound.find?_eq_some_iff.2 (Sound.quad?_eq_some_iff.2 ⟨_, hid, hquad⟩)
  have heq : s' = (s.removeId id).2 := by
    change (s.removeQuad (quad b gone)).2 = _
    rw [QuadStore.removeQuad, hfind]
  have hsound : s'.Sound := Edit.run_sound h.sound _
  have hremoved := h.statements.remove h.sound.statements hspread hgone hid
  rw [heq] at hsound ⊢
  split
  next hmany =>
    rw [if_pos hmany] at hremoved
    exact ⟨hsound, h.named, hremoved⟩
  next hfew =>
    rw [if_neg hfew] at hremoved
    exact ⟨hsound, h.named, hremoved⟩

/-- **A quad that comes too late** finds the index doubled for it, if the quads that are there take a
third of it. -/
lemma insert_refused (h : s.Queued b gone come zombies 0) (hspread : Spreads b)
    (hterms : b + 1 < TermTable.capacity) (hcome : come < b * b * b)
    (hcrowded : b * b * b * 2 < (come + 1) * 3)
    (hfull : Statements.capacity ≤ come - gone + zombies)
    (hlive : b * b * b < (come - gone + 1) * 3) :
    let s' := ((Edit.insert (quad b come)).run s).2
    s'.statements.index.size = 2 * (b * b * b) ∧ s'.size = come - gone := by
  intro s'
  obtain ⟨s₀, heq, hsound, -, hqueued⟩ := h.insert_eq hcome hterms
  have hcount := hqueued.live_eq
  have hrefused := hqueued.insert_refused hsound.statements hsound.settled hspread hcome hcrowded
    hfull
  have hstatements : s'.statements = s₀.statements.rebuildIndex := by
    change ((Edit.insert (quad b come)).run s).2.statements = _
    rw [heq]
    exact congrArg Prod.snd hrefused
  have hbound : come - gone = s₀.statements.live := by omega
  rw [size, hstatements, hbound]
  refine ⟨?_, rfl⟩
  rw [hbound] at hlive
  change (Statements.enterAll _ (Statements.rebuiltSize s₀.statements.live _)).size = _
  rw [Statements.size_enterAll, hqueued.size_eq, Statements.rebuiltSize, if_pos hlive]

end QuadStore.Queued

/-- A history through which numbered quads have passed, at most `bound` of them at the same time. -/
structure Turned (config : Config) (operations : List Operation)
    (bound b gone come zombies free : Nat) : Prop where
  spreads : Spreads b
  terms_lt : b + 1 < TermTable.capacity
  queued : (reached config operations).Queued b gone come zombies free
  peak_le : peak config operations ≤ bound

namespace Turned

variable {gone' come' zombies' free' n : Nat}

/-- One more edit, after which not too many quads are there. -/
lemma step (h : Turned config operations bound b gone come zombies free) {e : Edit}
    (hrun : (e.run (reached config operations)).2.Queued b gone' come' zombies' free')
    (hbound : come' ≤ gone' + bound) :
    Turned config (operations ++ [.edit e]) bound b gone' come' zombies' free' := by
  have hlive := hrun.statements.live_eq
  refine ⟨h.spreads, h.terms_lt, ?_, ?_⟩
  · rw [reached_concat]
    exact hrun
  · rw [peak_concat]
    refine max_le h.peak_le ?_
    change (e.run (reached config operations)).2.statements.live ≤ bound
    omega

lemma arrive (h : Turned config operations bound b gone come zombies free)
    (hroom : (come + 1) * 3 ≤ b * b * b * 2)
    (hnumber : 0 < free ∨ come - gone + zombies + free < Statements.capacity)
    (hbound : come + 1 ≤ gone + bound) :
    Turned config (operations ++ [arrival b come]) bound b gone (come + 1) zombies (free - 1) :=
  h.step (h.queued.insert h.spreads h.terms_lt hroom hnumber) hbound

/-- A quad goes without a sweep. -/
lemma depart (h : Turned config operations bound b gone come zombies free)
    (hfew : gone + zombies + 2 < come) (hbound : come ≤ gone + bound) :
    Turned config (operations ++ [departure b gone]) bound b (gone + 1) come (zombies + 1)
      free := by
  have hremoved := h.queued.removeQuad h.spreads (show gone < come by omega)
  rw [if_neg (Nat.not_le.2 hfew)] at hremoved
  exact h.step hremoved (by omega)

/-- A quad goes, and its number and those of the others that have gone are freed. -/
lemma departLast (h : Turned config operations bound b gone come zombies free)
    (hmany : come ≤ gone + zombies + 2) (hgone : gone < come) (hbound : come ≤ gone + bound) :
    Turned config (operations ++ [departure b gone]) bound b (gone + 1) come 0
      (free + (zombies + 1)) := by
  have hremoved := h.queued.removeQuad h.spreads hgone
  rw [if_pos hmany] at hremoved
  exact h.step hremoved (by omega)

/-- **Many quads come**, as long as the index has room and all records together have numbers. -/
theorem arriveAll (h : Turned config operations bound b gone come zombies free)
    (hroom : (come + n) * 3 ≤ b * b * b * 2)
    (hnumbers : come + n - gone + zombies ≤ Statements.capacity)
    (hbound : come + n ≤ gone + bound) :
    Turned config (operations ++ arrivals b come n) bound b gone (come + n) zombies (free - n) := by
  have hlive := h.queued.statements.live_eq
  induction n with
  | zero => rwa [arrivals, List.range'_zero, List.map_nil, List.append_nil]
  | succ n ih =>
    have hnext := (ih (by omega) (by omega) (by omega)).arrive (by omega) (by omega) (by omega)
    rwa [List.append_assoc, ← arrivals_succ] at hnext

/-- **Many quads go** without a sweep, as long as more than half of them remain. -/
theorem departAll (h : Turned config operations bound b gone come zombies free)
    (hfew : gone + zombies + 2 * n < come) (hbound : come ≤ gone + bound) :
    Turned config (operations ++ departures b gone n) bound b (gone + n) come (zombies + n)
      free := by
  induction n with
  | zero => rwa [departures, List.range'_zero, List.map_nil, List.append_nil]
  | succ n ih =>
    have hnext := (ih (by omega)).depart (by omega) (by omega)
    rwa [List.append_assoc, ← departures_succ] at hnext

/-- **Half of the quads go**, and a sweep frees all numbers that have waited for it. -/
theorem departHalf (h : Turned config operations bound b gone come zombies free) (hpos : 0 < n)
    (hfew : gone + zombies + 2 * n < come + 2) (hmany : come ≤ gone + zombies + 2 * n)
    (hbound : come ≤ gone + bound) :
    Turned config (operations ++ departures b gone n) bound b (gone + n) come 0
      (free + (zombies + n)) := by
  obtain ⟨n, rfl⟩ := Nat.exists_eq_succ_of_ne_zero hpos.ne'
  have hlast := (h.departAll (n := n) (by omega) hbound).departLast (by omega) (by omega)
    (by omega)
  rwa [List.append_assoc, ← departures_succ] at hlast

/-- **A quad comes too late**, and the index is doubled for it, if the quads that are there take a
third of it. -/
theorem overflow (h : Turned config operations bound b gone come zombies 0)
    (hcome : come < b * b * b) (hcrowded : b * b * b * 2 < (come + 1) * 3)
    (hfull : Statements.capacity ≤ come - gone + zombies)
    (hlive : b * b * b < (come - gone + 1) * 3) (hbound : come - gone = bound) :
    (reached config (operations ++ [arrival b come])).statements.index.size = 2 * (b * b * b) ∧
      peak config (operations ++ [arrival b come]) = bound := by
  obtain ⟨hindex, hsize⟩ := h.queued.insert_refused h.spreads h.terms_lt hcome hcrowded hfull hlive
  have hpeak : peak config (operations ++ [arrival b come]) =
      max (peak config operations) (come - gone) := by
    rw [peak_concat, ← hsize]
    rfl
  rw [reached_concat, hpeak, hbound]
  exact ⟨hindex, max_eq_right h.peak_le⟩

end Turned

end Turned

/-! ## A history that exhausts a store -/

namespace Turnover

/-- A hasher that takes the first three of four handles as digits. -/
@[reducible] def byDigits (b : Nat) : Text.Hasher :=
  ⟨fun
    | [.word s, .word p, .word o, _] =>
      UInt64.ofNat (((s.toNat - 1) * b + (p.toNat - 1)) * b + (o.toNat - 1))
    | _ => 0⟩

/-- It leads 2^33 quads with 2048 terms to slots of their own. -/
lemma spreads_byDigits : @Spreads (byDigits 2048) 2048 := by
  intro k hk
  have hdigit : ∀ i < 2048, (UInt32.ofNat (i + 1)).toNat - 1 = i := fun i hi => by
    rw [UInt32.toNat_ofNat', Nat.mod_eq_of_lt (by omega), Nat.add_sub_cancel]
  have hhash : @Statements.hashTerms (byDigits 2048) (handles 2048 k) =
      (UInt64.ofNat ((((UInt32.ofNat (k / (2048 * 2048) + 1)).toNat - 1) * 2048 +
        ((UInt32.ofNat (k / 2048 % 2048 + 1)).toNat - 1)) * 2048 +
        ((UInt32.ofNat (k % 2048 + 1)).toNat - 1))).toNat := rfl
  have hsum : (k / (2048 * 2048) * 2048 + k / 2048 % 2048) * 2048 + k % 2048 = k := by omega
  obtain ⟨hs, hp, ho⟩ := digits_lt hk
  have hword : (UInt64.ofNat k).toNat = k := by
    rw [UInt64.toNat_ofNat', Nat.mod_eq_of_lt (by omega)]
  rw [hhash, hdigit _ hs, hdigit _ hp, hdigit _ ho, hsum, hword, Nat.mod_eq_of_lt hk]

/-- Room for as many statements as there are record numbers. -/
def ample : Config :=
  { statements := 2 ^ 32 }

/-- Of 2^33 quads, 5726623061 come and 2863311531 go again, with never more than 2863311530 in the
store.  Two sweeps on the way free numbers, and in the end all numbers are in use. -/
def filling : List Operation :=
  arrivals 2048 0 4 ++ departures 2048 0 2 ++ arrivals 2048 4 2863311528 ++
    departures 2048 2 1431655765 ++ arrivals 2048 2863311532 1431655765 ++
    departures 2048 1431655767 1431655764 ++ arrivals 2048 4294967297 1431655764

/-- One more quad comes. -/
def exhausting : List Operation :=
  filling ++ [arrival 2048 5726623061]

lemma slots_ample : powerOfTwoFrom (max ample.statements 8 * 3 / 2) = 2048 * 2048 * 2048 := by
  decide

variable [Text.Hasher]

lemma turned_create (hspread : Spreads 2048) : Turned ample [] 2863311530 2048 0 0 0 0 where
  spreads := hspread
  terms_lt := by decide
  queued :=
    { sound := QuadStore.create_sound ample
      named := rfl
      statements :=
        { size_eq := (size_emptySlots _).trans slots_ample
          used_eq := rfl
          live_eq := rfl
          zombies_eq := rfl
          free_eq := rfl
          entry := fun k _ hk => absurd hk (Nat.not_lt_zero k)
          empty := fun k _ hk =>
            Array.getElem?_replicate.trans (if_pos (hk.trans_eq slots_ample.symm)) } }
  peak_le := Nat.zero_le _

lemma turned_filling (hspread : Spreads 2048) :
    Turned ample filling 2863311530 2048 2863311531 5726623061 1431655764 0 := by
  have hcapacity : Statements.capacity = 4294967294 := by decide
  -- The two sweeps free numbers, so that enough quads can come to crowd the index.  The tombstones
  -- that are made after them keep theirs, which leaves none for one more quad.
  have h₁ : Turned ample _ 2863311530 2048 0 4 0 0 :=
    (turned_create hspread).arriveAll (n := 4) (by omega) (by omega) (by omega)
  have h₂ : Turned ample _ 2863311530 2048 2 4 0 2 :=
    h₁.departHalf (n := 2) (by omega) (by omega) (by omega) (by omega)
  have h₃ : Turned ample _ 2863311530 2048 2 2863311532 0 0 :=
    h₂.arriveAll (n := 2863311528) (by omega) (by omega) (by omega)
  have h₄ : Turned ample _ 2863311530 2048 1431655767 2863311532 0 1431655765 :=
    h₃.departHalf (n := 1431655765) (by omega) (by omega) (by omega) (by omega)
  have h₅ : Turned ample _ 2863311530 2048 1431655767 4294967297 0 0 :=
    h₄.arriveAll (n := 1431655765) (by omega) (by omega) (by omega)
  have h₆ : Turned ample _ 2863311530 2048 2863311531 4294967297 1431655764 0 :=
    h₅.departAll (n := 1431655764) (by omega) (by omega)
  have h₇ : Turned ample _ 2863311530 2048 2863311531 5726623061 1431655764 0 :=
    h₆.arriveAll (n := 1431655764) (by omega) (by omega) (by omega)
  rwa [List.nil_append] at h₇

/-- **The index is doubled for a quad that is then refused.** -/
theorem overflow_exhausting (hspread : Spreads 2048) :
    (reached ample exhausting).statements.index.size = 2 ^ 34 ∧
      peak ample exhausting = 2863311530 := by
  have hcapacity : Statements.capacity = 4294967294 := by decide
  obtain ⟨hindex, hpeak⟩ := (turned_filling hspread).overflow (by omega) (by omega) (by omega)
    (by omega) (by omega)
  rw [exhausting]
  exact ⟨hindex.trans (by decide), hpeak⟩

end Turnover

end QuadBase.Store
