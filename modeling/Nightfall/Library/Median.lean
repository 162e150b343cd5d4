import Mathlib

/-!
# Medians of windows

An element of a sorted list is bounded below as soon as few enough elements of the list are
smaller.  The count does not depend on the order, so a window keeps its median from falling
when it drops elements in front and takes a larger one in behind.
-/

namespace Median

variable {α : Type*} [LinearOrder α]

/-- An element of a sorted list and the number of smaller elements. -/
theorem le_getElem_iff {sorted : List α} (ordered : sorted.Pairwise (· ≤ ·)) {index : ℕ}
    (inside : index < sorted.length) (bound : α) :
    bound ≤ sorted[index] ↔ sorted.countP (· < bound) ≤ index := by
  have split : sorted.countP (· < bound) =
      (sorted.take index).countP (· < bound) + (sorted.drop index).countP (· < bound) := by
    rw [← List.countP_append, List.take_append_drop]
  have least : ∀ element ∈ sorted.drop index, sorted[index] ≤ element := by
    rw [List.drop_eq_getElem_cons inside]
    intro element member
    rcases List.mem_cons.mp member with rfl | later
    · exact le_rfl
    · have ordered := ordered.sublist (List.drop_sublist index sorted)
      rw [List.drop_eq_getElem_cons inside, List.pairwise_cons] at ordered
      exact ordered.1 element later
  have greatest : ∀ element ∈ sorted.take (index + 1), element ≤ sorted[index] := by
    rw [List.take_succ_eq_append_getElem inside]
    intro element member
    rcases List.mem_append.mp member with earlier | here
    · have ordered := ordered.sublist (List.take_sublist (index + 1) sorted)
      rw [List.take_succ_eq_append_getElem inside, List.pairwise_append] at ordered
      exact ordered.2.2 element earlier _ List.mem_cons_self
    · rw [List.mem_singleton.mp here]
  constructor
  · intro above
    have none : (sorted.drop index).countP (· < bound) = 0 := by
      rw [List.countP_eq_zero]
      intro element member
      simpa using above.trans (least element member)
    rw [split, none, Nat.add_zero]
    exact List.countP_le_length.trans (List.length_take_le _ _)
  · intro few
    by_contra below
    rw [not_le] at below
    have all : (sorted.take (index + 1)).countP (· < bound) = index + 1 := by
      rw [List.countP_eq_length.mpr, List.length_take]
      · omega
      · intro element member
        simpa using (greatest element member).trans_lt below
    have part := (List.take_sublist (index + 1) sorted).countP_le (p := (· < bound))
    omega

/-- The upper median, and `default` for an empty list. -/
def upper (list : List α) (default : α) : α :=
  let sorted := list.insertionSort (· ≤ ·)
  sorted.getD (sorted.length / 2) default

variable {list window : List α} {default bound element : α}

theorem le_upper_iff (nonempty : list ≠ []) :
    bound ≤ upper list default ↔ list.countP (· < bound) ≤ list.length / 2 := by
  have sameLength := List.length_insertionSort (r := (· ≤ ·)) (l := list)
  have positive := List.length_pos_iff.mpr nonempty
  have inside : (list.insertionSort (· ≤ ·)).length / 2 < (list.insertionSort (· ≤ ·)).length := by
    omega
  rw [upper, List.getD_eq_getElem _ _ inside,
    le_getElem_iff (List.pairwise_insertionSort (· ≤ ·) list) inside,
    (List.perm_insertionSort (· ≤ ·) list).countP_eq, sameLength]

/-- A window that drops elements in front and takes in one that is not below its median does
not lower it, as long as it does not get shorter. -/
theorem upper_le_upper (nonempty : list ≠ []) (inside : window <:+ list)
    (longer : list.length ≤ window.length + 1) (above : upper list default ≤ element) :
    upper list default ≤ upper (window ++ [element]) default := by
  have few : list.countP (· < upper list default) ≤ list.length / 2 :=
    (le_upper_iff nonempty).mp le_rfl
  rw [le_upper_iff (by simp), List.countP_append, List.length_append, List.length_singleton]
  have fewer := inside.sublist.countP_le (p := (· < upper list default))
  have none : [element].countP (· < upper list default) = 0 := by
    simpa using above
  omega

end Median
