import Mathlib

/-!
# Largest first

A list of items in descending order of value.  No choice of items is worth more than the
first items of the list, as many as were chosen.
-/

namespace LargestFirst

variable {α : Type*} {value : α → Nat} {items chosen : List α}

/-- What the items are worth together. -/
def total (value : α → Nat) (items : List α) : Nat :=
  (items.map value).sum

@[simp] theorem total_nil : total value [] = 0 := rfl

@[simp] theorem total_cons (item : α) (rest : List α) :
    total value (item :: rest) = value item + total value rest := rfl

/-- No item is followed by a more valuable one. -/
def Descending (value : α → Nat) (items : List α) : Prop :=
  items.Pairwise fun left right => value right ≤ value left

theorem total_perm {permuted : List α} (perm : items.Perm permuted) :
    total value items = total value permuted :=
  (perm.map value).sum_eq

theorem total_take_mono {fewer more : Nat} (le : fewer ≤ more) :
    total value (items.take fewer) ≤ total value (items.take more) := by
  have front : (items.take fewer).Sublist (items.take more) :=
    (List.take_prefix_take_left le).sublist
  exact (front.map value).sum_le_sum fun _ _ => Nat.zero_le _

/-- Leaving out the first item makes the first items worth no more. -/
theorem total_take_tail {first : α} (sorted : Descending value (first :: items)) (count : Nat) :
    total value (items.take count) ≤ total value ((first :: items).take count) := by
  cases count with
  | zero => exact le_rfl
  | succ count =>
      rw [List.take_succ_cons, total_cons]
      induction items generalizing first count with
      | nil => simp
      | cons second rest ih =>
          have later := (List.pairwise_cons.mp sorted).2
          have here := (List.pairwise_cons.mp sorted).1 second List.mem_cons_self
          rw [List.take_succ_cons, total_cons]
          cases count with
          | zero => simpa using here
          | succ count =>
              rw [List.take_succ_cons, total_cons]
              exact Nat.add_le_add here (ih later count)

theorem total_le_take_of_sublist (sorted : Descending value items)
    (within : chosen.Sublist items) :
    total value chosen ≤ total value (items.take chosen.length) := by
  induction within with
  | slnil => exact le_rfl
  | cons first within ih =>
      have later := ih (List.pairwise_cons.mp sorted).2
      exact later.trans (total_take_tail sorted _)
  | cons_cons first within ih =>
      have later := ih (List.pairwise_cons.mp sorted).2
      rw [List.length_cons, List.take_succ_cons, total_cons, total_cons]
      exact Nat.add_le_add_left later _

/-- No choice is worth more than as many of the first items. -/
theorem total_le_take (sorted : Descending value items) (within : chosen.Subperm items) :
    total value chosen ≤ total value (items.take chosen.length) := by
  obtain ⟨arranged, perm, sublist⟩ := within
  rw [← total_perm perm, ← perm.length_eq]
  exact total_le_take_of_sublist sorted sublist

/-- The first items that reach a target are as few as possible. -/
theorem length_le_of_reaches (sorted : Descending value items) (within : chosen.Subperm items)
    {target count : Nat} (reaches : target ≤ total value chosen)
    (short : ∀ fewer < count, total value (items.take fewer) < target) :
    count ≤ chosen.length := by
  by_contra larger
  have below := short chosen.length (Nat.not_le.mp larger)
  exact absurd (reaches.trans (total_le_take sorted within)) (Nat.not_le.mpr below)

/-- A bounded choice reaches a target only if as many of the first items do. -/
theorem reaches_take (sorted : Descending value items) (within : chosen.Subperm items)
    {target bound : Nat} (small : chosen.length ≤ bound)
    (reaches : target ≤ total value chosen) : target ≤ total value (items.take bound) :=
  (reaches.trans (total_le_take sorted within)).trans (total_take_mono small)

end LargestFirst
