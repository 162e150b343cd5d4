import Mathlib

/-!
# Lists whose elements build on what precedes them

`Chained rel list` relates every element to the list before it.  This is the shape of
a linked log: the relation says what an entry must satisfy given its predecessors.
-/

/-- Every element is related to the elements before it. -/
def Chained {α : Type*} (rel : List α → α → Prop) (list : List α) : Prop :=
  ∀ before element after, list = before ++ element :: after → rel before element

namespace Chained

variable {α : Type*} {rel : List α → α → Prop}

theorem nil (rel : List α → α → Prop) : Chained rel [] := by
  intro before element after equal
  simp at equal

/-- A prefix of a chained list is chained. -/
theorem of_append {front back : List α} (chained : Chained rel (front ++ back)) :
    Chained rel front := by
  rintro before element after rfl
  exact chained before element (after ++ back) (by simp)

theorem take {list : List α} (chained : Chained rel list) (count : ℕ) :
    Chained rel (list.take count) := by
  have whole : Chained rel (list.take count ++ list.drop count) := by
    rwa [List.take_append_drop]
  exact whole.of_append

/-- Appending one element needs only its own relation. -/
theorem concat {list : List α} {last : α} (chained : Chained rel list)
    (related : rel list last) : Chained rel (list ++ [last]) := by
  intro before element after equal
  rcases List.eq_nil_or_concat after with rfl | ⟨rest, final, rfl⟩
  · obtain ⟨rfl, rfl⟩ := List.append_singleton_inj.mp equal
    exact related
  · rw [List.concat_eq_append, ← List.cons_append, ← List.append_assoc] at equal
    obtain ⟨rfl, _⟩ := List.append_singleton_inj.mp equal
    exact chained before element rest rfl

theorem last {list : List α} {final : α} (chained : Chained rel (list ++ [final])) :
    rel list final :=
  chained list final [] rfl

theorem mono {weaker : List α → α → Prop} {list : List α} (chained : Chained rel list)
    (implies : ∀ before element, rel before element → weaker before element) :
    Chained weaker list :=
  fun before element after equal => implies before element (chained before element after equal)

theorem at_index {list : List α} (chained : Chained rel list) {index : ℕ} {element : α}
    (found : list[index]? = some element) : rel (list.take index) element := by
  obtain ⟨inside, rfl⟩ := List.getElem?_eq_some_iff.mp found
  apply chained (list.take index) list[index] (list.drop (index + 1))
  rw [List.cons_getElem_drop_succ, List.take_append_drop]

/-- What holds of every element can be read off the relation. -/
theorem forall_mem {list : List α} {holds : α → Prop} (chained : Chained rel list)
    (implies : ∀ before element, rel before element → holds element) :
    ∀ element ∈ list, holds element := by
  intro element member
  obtain ⟨before, after, rfl⟩ := List.append_of_mem member
  exact implies before element (chained before element after rfl)

end Chained
