import Mathlib.Data.Nat.ModEq
import Mathlib.Tactic.Common
import QuadBase.Index.Probing

/-!
# Searches in open-addressed tables

A search for a hash visits the slots of an array in turn, from the slot of the hash on and around
the end.  This file says what a search can answer, in three groups.

**One search.**  `Ends` lists what a search can answer: it goes past deletion markers and entries
that are not the one looked for, and ends at the first slot that is neither.  `probe_ends` says that
every search answers in one of these ways, and if some slot is empty it never comes around without
an answer (`probe_ne_exhausted`).

**A table that can be searched.**  `Placed slots hashOf` says that every entry lies on the path of
its own hash: between the slot of the hash and the entry no slot is empty.  This is the invariant of
every table of the project.  In such a table a search misses nothing
(`Placed.probe_found`, `Placed.same_eq_false_of_vacant`).

**Changes.**  Overwriting a free slot on the path of the new entry keeps the invariant
(`Placed.enter`), and so does putting a deletion marker (`Placed.delete`).

The hash of an entry is a parameter throughout, so nothing here depends on which hashes collide.
-/

namespace QuadBase.Index

variable {α : Type} {slots : Array (Slot α)} {hash : Nat} {same : α → Bool} {hashOf : α → Nat}

/-! ## The path of a hash -/

/-- The slot that a search for `hash` visits after `d` steps. -/
def visited (slots : Array (Slot α)) (hash d : Nat) : Nat :=
  (hash + d) % slots.size

/-- A search goes past this slot: it is a deletion marker or another entry. -/
def GoesPast (same : α → Bool) : Slot α → Prop
  | .empty => False
  | .deleted => True
  | .entry value => same value = false

/-- A slot that an insertion may overwrite. -/
def Slot.IsFree : Slot α → Prop
  | .entry _ => False
  | _ => True

lemma nextPosition_mod {count : Nat} (h : 0 < count) (x : Nat) :
    nextPosition count (x % count) = (x + 1) % count := by
  have hlt := Nat.mod_lt x h
  rw [nextPosition]
  split
  next hlast => rw [← Nat.mod_add_mod, hlast, Nat.mod_self]
  next hnot => rw [← Nat.mod_add_mod, Nat.mod_eq_of_lt (show x % count + 1 < count by omega)]

lemma nextPosition_visited (h : 0 < slots.size) (d : Nat) :
    nextPosition slots.size (visited slots hash d) = visited slots hash (d + 1) :=
  nextPosition_mod h (hash + d)

lemma visited_lt (h : 0 < slots.size) (d : Nat) : visited slots hash d < slots.size :=
  Nat.mod_lt _ h

/-- The path of a hash visits every slot. -/
lemma exists_visited {i : Nat} (h : i < slots.size) (hash : Nat) :
    ∃ d < slots.size, visited slots hash d = i := by
  have hpos : 0 < slots.size := Nat.lt_of_le_of_lt (Nat.zero_le i) h
  have hlt : hash % slots.size < slots.size := Nat.mod_lt hash hpos
  refine ⟨(i + (slots.size - hash % slots.size)) % slots.size, Nat.mod_lt _ hpos, ?_⟩
  have hsum : hash % slots.size + (i + (slots.size - hash % slots.size)) = i + slots.size := by
    omega
  rw [visited, Nat.add_mod_mod, ← Nat.mod_add_mod, hsum, Nat.add_mod_right, Nat.mod_eq_of_lt h]

/-- From step `d` up to step `e`, a search goes past all slots. -/
def Passes (slots : Array (Slot α)) (same : α → Bool) (hash d e : Nat) : Prop :=
  ∀ k, d ≤ k → k < e → ∃ s, slots[visited slots hash k]? = some s ∧ GoesPast same s

lemma Passes.refl {d : Nat} : Passes slots same hash d d :=
  fun _ hk hk' => absurd hk' (Nat.not_lt.2 hk)

lemma Passes.step {d e : Nat} {s : Slot α} (hs : slots[visited slots hash d]? = some s)
    (hpast : GoesPast same s) (h : Passes slots same hash (d + 1) e) :
    Passes slots same hash d e := by
  intro k hk hk'
  rcases Nat.eq_or_lt_of_le hk with rfl | hk
  · exact ⟨s, hs, hpast⟩
  · exact h k hk hk'

/-! ## What a search answers -/

/-- The answers of a search that is at step `d` and has `steps` slots to go.  It may already have
met a `reusable` slot. -/
inductive Ends (slots : Array (Slot α)) (same : α → Bool) (hash d steps : Nat)
    (reusable : Option Nat) : Probe α → Prop where
  /-- The entry is met. -/
  | found (e : Nat) (value : α) (lower : d ≤ e) (upper : e < d + steps)
      (passes : Passes slots same hash d e)
      (entry : slots[visited slots hash e]? = some (.entry value)) (isSame : same value = true) :
      Ends slots same hash d steps reusable (.found (visited slots hash e) value)
  /-- An empty slot is met at step `e`.  The answer is the first free slot. -/
  | vacant (e position : Nat) (lower : d ≤ e) (upper : e < d + steps)
      (passes : Passes slots same hash d e)
      (empty : slots[visited slots hash e]? = some .empty)
      (free : reusable = some position ∨ ∃ f, d ≤ f ∧ f ≤ e ∧ position = visited slots hash f ∧
        ∃ s, slots[position]? = some s ∧ s.IsFree) :
      Ends slots same hash d steps reusable (.vacant position)
  /-- There are no slots to go. -/
  | exhausted (passes : Passes slots same hash d (d + steps)) :
      Ends slots same hash d steps reusable .exhausted

/-- A search that goes past a slot answers what the rest of it answers.  A slot that becomes
reusable on the way is the one it goes past. -/
lemma Ends.step {d steps : Nat} {reusable later : Option Nat} {answer : Probe α} {s : Slot α}
    (hs : slots[visited slots hash d]? = some s) (hpast : GoesPast same s)
    (hlater : ∀ position, later = some position →
      reusable = some position ∨ position = visited slots hash d ∧ s.IsFree)
    (h : Ends slots same hash (d + 1) steps later answer) :
    Ends slots same hash d (steps + 1) reusable answer := by
  cases h with
  | found e value lower upper passes entry isSame =>
    exact .found e value (by omega) (by omega) (passes.step hs hpast) entry isSame
  | vacant e position lower upper passes empty free =>
    refine .vacant e position (by omega) (by omega) (passes.step hs hpast) empty ?_
    rcases free with hreuse | ⟨f, hdf, hfe, hf⟩
    · rcases hlater position hreuse with hold | ⟨rfl, hfree⟩
      · exact Or.inl hold
      · exact Or.inr ⟨d, le_refl d, by omega, rfl, s, hs, hfree⟩
    · exact Or.inr ⟨f, by omega, hfe, hf⟩
  | exhausted passes =>
    refine .exhausted fun k hk hk' => passes.step hs hpast k hk (by omega)

theorem probeFrom_ends (hpos : 0 < slots.size) (hash : Nat) (same : α → Bool) (steps d : Nat)
    (reusable : Option Nat) :
    Ends slots same hash d steps reusable
      (probeFrom slots same steps (visited slots hash d) reusable) := by
  induction steps generalizing d reusable with
  | zero => exact .exhausted .refl
  | succ steps ih =>
    obtain ⟨s, hs⟩ : ∃ s, slots[visited slots hash d]? = some s :=
      ⟨_, Array.getElem?_eq_getElem (visited_lt hpos d)⟩
    rw [probeFrom, hs]
    cases s with
    | empty =>
      refine .vacant d _ (le_refl d) (by omega) .refl hs ?_
      cases reusable with
      | none => exact Or.inr ⟨d, le_refl d, le_refl d, rfl, _, hs, trivial⟩
      | some position => exact Or.inl rfl
    | deleted =>
      simp only [nextPosition_visited hpos]
      refine (ih (d + 1) _).step hs trivial ?_
      intro position h
      cases reusable with
      | none => exact Or.inr ⟨(Option.some.inj h).symm, trivial⟩
      | some first => exact Or.inl h
    | entry value =>
      simp only [nextPosition_visited hpos]
      split
      next hsame => exact .found d value (le_refl d) (by omega) .refl hs hsame
      next hother =>
        exact (ih (d + 1) reusable).step hs (by simpa [GoesPast] using hother)
          fun _ h => Or.inl h

/-- **Every search answers in one of three ways.** -/
theorem probe_ends (hpos : 0 < slots.size) (hash : Nat) (same : α → Bool) :
    Ends slots same hash 0 slots.size none (probe slots hash same) := by
  have h := probeFrom_ends hpos hash same slots.size 0 none
  rwa [visited, Nat.add_zero] at h

lemma size_pos_of_mem {s : Slot α} (h : s ∈ slots) : 0 < slots.size :=
  Array.size_pos_of_mem h

/-- As long as a slot is empty, no search comes around without an answer. -/
theorem probe_ne_exhausted (hempty : .empty ∈ slots) (hash : Nat) (same : α → Bool) :
    probe slots hash same ≠ .exhausted := by
  intro h
  have hends := probe_ends (size_pos_of_mem hempty) hash same
  rw [h] at hends
  cases hends with
  | exhausted passes =>
    obtain ⟨i, hi, hslot⟩ := Array.mem_iff_getElem.1 hempty
    obtain ⟨d, hd, rfl⟩ := exists_visited hi hash
    obtain ⟨s, hs, hpast⟩ := passes d (Nat.zero_le d) (by omega)
    rw [Array.getElem?_eq_getElem hi, hslot] at hs
    cases hs
    exact hpast

/-- A search that ends without an entry ends at a slot to insert one. -/
lemma Probe.exists_vacant {answer : Probe α} (hends : answer ≠ .exhausted)
    (hnone : ∀ position value, answer ≠ .found position value) :
    ∃ position, answer = .vacant position := by
  cases answer with
  | found position value => exact absurd rfl (hnone position value)
  | vacant position => exact ⟨position, rfl⟩
  | exhausted => exact absurd rfl hends

/-! ## Searches that end at once -/

lemma probeFrom_eq_vacant {steps position : Nat} (hsteps : 0 < steps)
    (hempty : slots[position]? = some .empty) :
    probeFrom slots same steps position none = .vacant position := by
  obtain ⟨steps, rfl⟩ := Nat.exists_eq_succ_of_ne_zero hsteps.ne'
  rw [probeFrom, hempty]
  rfl

/-- A search that starts at an empty slot stays there. -/
lemma probe_eq_vacant (hempty : slots[hash % slots.size]? = some .empty) :
    probe slots hash same = .vacant (hash % slots.size) :=
  probeFrom_eq_vacant (size_pos_of_mem (Array.mem_of_getElem? hempty)) hempty

/-! ## Tables that can be searched -/

/-- The slot lies on the path of the hash: no slot before it is empty. -/
def OnPath (slots : Array (Slot α)) (hash position : Nat) : Prop :=
  ∃ d < slots.size, visited slots hash d = position ∧
    ∀ k < d, slots[visited slots hash k]? ≠ some .empty

/-- Every entry lies on the path of its own hash. -/
def Placed (slots : Array (Slot α)) (hashOf : α → Nat) : Prop :=
  ∀ i value, slots[i]? = some (.entry value) → OnPath slots (hashOf value) i

lemma Passes.ne_empty {d e : Nat} (h : Passes slots same hash d e) {k : Nat} (hk : d ≤ k)
    (hk' : k < e) : slots[visited slots hash k]? ≠ some .empty := by
  obtain ⟨s, hs, hpast⟩ := h k hk hk'
  rintro hempty
  rw [hs] at hempty
  cases hempty
  exact hpast

/-- The slot that a search offers for an insertion is free and on the path of the hash. -/
theorem onPath_of_probe_vacant {position : Nat} (h : probe slots hash same = .vacant position)
    (hpos : 0 < slots.size) :
    OnPath slots hash position ∧ ∃ s, slots[position]? = some s ∧ s.IsFree := by
  have hends := probe_ends hpos hash same
  rw [h] at hends
  cases hends with
  | vacant e position lower upper passes empty free =>
    rcases free with hnone | ⟨f, -, hfe, rfl, hfree⟩
    · cases hnone
    · exact ⟨⟨f, by omega, rfl, fun k hk => passes.ne_empty (Nat.zero_le k) (by omega)⟩, hfree⟩

/-- **A search misses nothing**: if it ends without an entry, no entry of that hash is the one that
was looked for. -/
theorem Placed.same_eq_false_of_vacant (hp : Placed slots hashOf) {position : Nat}
    (h : probe slots hash same = .vacant position) {value : α} (hmem : .entry value ∈ slots)
    (hhash : hashOf value = hash) : same value = false := by
  have hpos := size_pos_of_mem hmem
  have hends := probe_ends hpos hash same
  rw [h] at hends
  cases hends with
  | vacant e position lower upper passes empty free =>
    obtain ⟨i, hi⟩ := Array.mem_iff_getElem?.1 hmem
    obtain ⟨d, hd, rfl, hbefore⟩ := hp i value hi
    rw [hhash] at hi hbefore
    rcases lt_trichotomy d e with hlt | rfl | hgt
    · obtain ⟨s, hs, hpast⟩ := passes d (Nat.zero_le d) hlt
      rw [hi] at hs
      cases hs
      exact hpast
    · rw [empty] at hi
      cases hi
    · exact absurd empty (hbefore e hgt)

/-- An entry that is looked for is found, or another one that passes for it. -/
theorem Placed.probe_found (hp : Placed slots hashOf) (hempty : .empty ∈ slots)
    (same : α → Bool) {value : α} (hmem : .entry value ∈ slots) (hsame : same value = true) :
    ∃ position other, probe slots (hashOf value) same = .found position other := by
  cases h : probe slots (hashOf value) same with
  | found position other => exact ⟨position, other, rfl⟩
  | vacant position =>
    rw [hp.same_eq_false_of_vacant h hmem rfl] at hsame
    cases hsame
  | exhausted => exact absurd h (probe_ne_exhausted hempty _ _)

/-- A search without a result ends at a free slot. -/
theorem probe_vacant (hempty : .empty ∈ slots) (h : ∀ value, .entry value ∈ slots →
    same value = false) : ∃ position, probe slots hash same = .vacant position := by
  cases hprobe : probe slots hash same with
  | found position value =>
    obtain ⟨hentry, hsame⟩ := probe_found_mem hprobe
    rw [h value (Array.mem_of_getElem? hentry)] at hsame
    cases hsame
  | vacant position => exact ⟨position, rfl⟩
  | exhausted => exact absurd hprobe (probe_ne_exhausted hempty _ _)

/-! ## Changing a slot -/

/-- A path stays open as long as no slot of it becomes empty. -/
lemma OnPath.mono {others : Array (Slot α)} {position : Nat} (h : OnPath slots hash position)
    (hsize : others.size = slots.size)
    (hempty : ∀ i : Nat, others[i]? = some .empty → slots[i]? = some .empty) :
    OnPath others hash position := by
  obtain ⟨d, hd, hpos, hbefore⟩ := h
  have hvisited : ∀ k, visited others hash k = visited slots hash k := fun k => by
    rw [visited, hsize, visited]
  refine ⟨d, hsize ▸ hd, by rw [hvisited, hpos], ?_⟩
  intro k hk
  rw [hvisited]
  exact fun h => hbefore k hk (hempty _ h)

/-- Only the hashes of the entries matter. -/
lemma Placed.congr {hashOf' : α → Nat} (hp : Placed slots hashOf)
    (h : ∀ value, .entry value ∈ slots → hashOf' value = hashOf value) : Placed slots hashOf' := by
  intro i value hi
  rw [h value (Array.mem_of_getElem? hi)]
  exact hp i value hi

lemma getElem?_eq_empty_of_set {position : Nat} {s : Slot α} (hs : s ≠ .empty) {i : Nat}
    (h : (slots.setIfInBounds position s)[i]? = some .empty) : slots[i]? = some .empty := by
  rw [Array.getElem?_setIfInBounds] at h
  split at h
  next =>
    split at h
    · exact absurd (Option.some.inj h) hs
    · cases h
  next => exact h

/-- **An entry may be put into any free slot of its path.** -/
theorem Placed.enter (hp : Placed slots hashOf) {position : Nat} {value : α}
    (hpath : OnPath slots (hashOf value) position) :
    Placed (slots.setIfInBounds position (.entry value)) hashOf := by
  intro i other hi
  have hmono : ∀ {h p : Nat}, OnPath slots h p →
      OnPath (slots.setIfInBounds position (.entry value)) h p := fun h =>
    h.mono Array.size_setIfInBounds fun i => getElem?_eq_empty_of_set (by simp)
  rw [Array.getElem?_setIfInBounds] at hi
  split at hi
  next heq =>
    subst heq
    split at hi
    · cases hi
      exact hmono hpath
    · cases hi
  next => exact hmono (hp i other hi)

/-- A deletion marker keeps all paths open. -/
theorem Placed.delete (hp : Placed slots hashOf) (position : Nat) :
    Placed (slots.setIfInBounds position .deleted) hashOf := by
  intro i value hi
  rw [Array.getElem?_setIfInBounds] at hi
  split at hi
  next =>
    split at hi
    · cases hi
    · cases hi
  next =>
    exact (hp i value hi).mono Array.size_setIfInBounds fun i => getElem?_eq_empty_of_set (by simp)

end QuadBase.Index
