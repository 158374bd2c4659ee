import QuadBase.Proofs.Store.Reachable

/-!
# Peaks

What a history has needed at most: the largest number of statements that have been live at the same
time, which is what a bound on the memory of a store has to be measured by.

* `peak` — the peak of a history, and `peak_concat` — how one more operation changes it.
* `exists_size_eq_peak` — the store has had as many statements as that at some time.
-/

namespace QuadBase.Store

open QuadStore

variable [Text.Hasher]

/-! ## One operation -/

/-- The peak after an operation on a store whose peak was `peak`.  A copy has a peak of its own. -/
def Operation.peak (s : QuadStore) (peak : Nat) : Operation → Nat
  | .filter pattern =>
    match s.filter pattern with
    | (.ok (), copy) => copy.size
    | (.error _, _) => peak
  | operation => max peak (operation.run s).size

/-- The peak stays as it was or is reached now. -/
lemma Operation.peak_eq (s : QuadStore) (peak : Nat) (operation : Operation) :
    operation.peak s peak = peak ∨ operation.peak s peak = (operation.run s).size := by
  cases operation with
  | edit e => exact max_choice _ _
  | walk pattern moves => exact max_choice _ _
  | filter pattern =>
    rw [Operation.peak, Operation.run]
    rcases s.filter pattern with ⟨_ | _, copy⟩
    · exact Or.inl rfl
    · exact Or.inr rfl
  | setNamespace abbreviation space => exact max_choice _ _
  | eraseNamespace abbreviation => exact max_choice _ _

/-! ## Histories -/

/-- **The peak**: the largest number of statements live at the same time so far, since the store was
created. -/
def peak (config : Config) (operations : List Operation) : Nat :=
  (operations.foldl (fun (s, peak) operation => (operation.run s, operation.peak s peak))
    (create config, 0)).2

/-- Whatever is kept beside the store has no part in its history. -/
lemma fst_foldl_beside {β : Type} (keep : QuadStore → β → Operation → β) (b : β) (config : Config)
    (operations : List Operation) :
    (operations.foldl (fun (s, b) operation => (operation.run s, keep s b operation))
      (create config, b)).1 = reached config operations := by
  induction operations using List.reverseRecOn with
  | nil => rfl
  | append_singleton operations operation ih =>
    rw [List.foldl_concat, reached, List.foldl_concat]
    exact congrArg operation.run ih

lemma reached_concat (config : Config) (operations : List Operation) (operation : Operation) :
    reached config (operations ++ [operation]) = operation.run (reached config operations) :=
  List.foldl_concat _ _ _ _

lemma peak_concat (config : Config) (operations : List Operation) (operation : Operation) :
    peak config (operations ++ [operation]) =
      operation.peak (reached config operations) (peak config operations) := by
  rw [peak, List.foldl_concat]
  exact congrArg (operation.peak · (peak config operations)) (fst_foldl_beside _ _ _ _)

/-- The peak has been the size of the store. -/
lemma exists_size_eq_peak (config : Config) (operations : List Operation) :
    ∃ before, before <+: operations ∧ (reached config before).size = peak config operations := by
  induction operations using List.reverseRecOn with
  | nil => exact ⟨[], List.prefix_refl _, rfl⟩
  | append_singleton operations operation ih =>
    rw [peak_concat]
    rcases operation.peak_eq (reached config operations) (peak config operations) with
      hsame | hnow
    · obtain ⟨before, hbefore, hsize⟩ := ih
      exact ⟨before, hbefore.trans (List.prefix_append _ _), hsize.trans hsame.symm⟩
    · exact ⟨_, List.prefix_refl _, by rw [reached_concat, hnow]⟩

end QuadBase.Store
