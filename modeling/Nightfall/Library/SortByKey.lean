import Mathlib

/-!
# Sorting by a key

A stable sort by a key depends on the multiset alone as soon as the keys are distinct:
two elements with the same key are then the same element, so the order on the keys is
antisymmetric on the list.
-/

namespace SortByKey

variable {α κ : Type*} [LE κ] [DecidableLE κ] [Std.IsLinearOrder κ] (key : α → κ)

/-- The list in the order of the keys. -/
abbrev sort (list : List α) : List α :=
  list.insertionSort fun left right => key left ≤ key right

instance total_key : Std.Total fun left right : α => key left ≤ key right :=
  ⟨fun left right => Std.IsLinearPreorder.le_total (key left) (key right)⟩

instance isTrans_key : IsTrans α fun left right => key left ≤ key right :=
  ⟨fun left middle right => Std.IsPreorder.le_trans (key left) (key middle) (key right)⟩

/-- A sorted list is left alone. -/
theorem sort_sort (list : List α) : sort key (sort key list) = sort key list :=
  (List.pairwise_insertionSort _ list).insertionSort_eq

/-- The order in which the elements come does not matter. -/
theorem sort_eq_of_perm {left right : List α} (distinct : (left.map key).Nodup)
    (perm : left.Perm right) : sort key left = sort key right := by
  have sortedLeft := List.perm_insertionSort (fun left right => key left ≤ key right) left
  have sortedRight := List.perm_insertionSort (fun left right => key left ≤ key right) right
  refine List.Perm.eq_of_pairwise ?_ (List.pairwise_insertionSort _ left)
    (List.pairwise_insertionSort _ right) (sortedLeft.trans (perm.trans sortedRight.symm))
  intro first second inLeft inRight below above
  have firstMember := sortedLeft.mem_iff.mp inLeft
  have secondMember := perm.mem_iff.mpr (sortedRight.mem_iff.mp inRight)
  exact List.inj_on_of_nodup_map distinct firstMember secondMember
    (Std.IsPartialOrder.le_antisymm _ _ below above)

end SortByKey
