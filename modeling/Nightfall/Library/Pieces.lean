import Mathlib

/-!
# A list in numbered pieces

A list is cut into pieces of one size, and a map that collects the pieces by number, counted
from one, gives them back in their order.
-/

namespace Pieces

open Std (ExtTreeMap)

variable {α β : Type}

/-- The pieces of a list, all but the last of the given size. -/
def cut (size : Nat) (items : List α) : List (List α) :=
  (List.range ((items.length + size - 1) / size)).map fun index =>
    (items.drop (size * index)).take size

variable {size : Nat} {items : List α}

theorem length_cut : (cut size items).length = (items.length + size - 1) / size := by
  simp [cut]

/-- The first pieces together are the beginning of the list. -/
theorem flatten_range (size : Nat) (items : List α) (count : Nat) :
    ((List.range count).map fun index => (items.drop (size * index)).take size).flatten =
      items.take (size * count) := by
  induction count with
  | zero => simp
  | succ count ih =>
      rw [List.range_succ, List.map_append, List.flatten_append, ih, Nat.mul_succ, List.take_add]
      simp

/-- The pieces together are the list. -/
theorem flatten_cut (positive : 0 < size) : (cut size items).flatten = items := by
  rw [cut, flatten_range, List.take_of_length_le]
  have rounds := Nat.lt_mul_div_succ (items.length + size - 1) positive
  rw [Nat.mul_succ] at rounds
  omega

/-- No piece is empty, and none is longer than the size. -/
theorem length_of_mem_cut (positive : 0 < size) {piece : List α} (member : piece ∈ cut size items) :
    piece ≠ [] ∧ piece.length ≤ size := by
  obtain ⟨index, inside, rfl⟩ := List.mem_map.mp member
  rw [List.mem_range, Nat.lt_div_iff_mul_lt positive] at inside
  rw [Nat.mul_comm] at inside
  constructor
  · rw [← List.length_pos_iff, List.length_take, List.length_drop]
    omega
  · exact List.length_take_le _ _

/-! ## Collecting pieces by number -/

variable {parts : ExtTreeMap Nat β} {pieces : List β} {arrived : Nat → Bool}

/-- The map holds the pieces that arrived, under their numbers. -/
def Collected (pieces : List β) (arrived : Nat → Bool) (parts : ExtTreeMap Nat β) : Prop :=
  ∀ number piece, parts[number]? = some piece ↔
    ∃ index, number = index + 1 ∧ pieces[index]? = some piece ∧ arrived index = true

namespace Collected

theorem mem_iff (collected : Collected pieces arrived parts) {number : Nat} :
    number ∈ parts ↔
      ∃ index, number = index + 1 ∧ index < pieces.length ∧ arrived index = true := by
  rw [← ExtTreeMap.isSome_getElem?_iff_mem, Option.isSome_iff_exists]
  constructor
  · rintro ⟨piece, held⟩
    obtain ⟨index, same, given, here⟩ := (collected number piece).mp held
    exact ⟨index, same, (List.getElem?_eq_some_iff.mp given).1, here⟩
  · rintro ⟨index, same, inside, here⟩
    exact ⟨pieces[index], (collected number _).mpr
      ⟨index, same, List.getElem?_eq_getElem inside, here⟩⟩

/-- As many parts as pieces that arrived. -/
theorem size_eq (collected : Collected pieces arrived parts) :
    parts.size = ((List.range pieces.length).filter arrived).length := by
  have numbers : parts.keys.Perm (((List.range pieces.length).filter arrived).map (· + 1)) := by
    rw [List.perm_ext_iff_of_nodup ExtTreeMap.nodup_keys
      ((List.nodup_range.filter _).map (add_left_injective 1))]
    intro number
    rw [ExtTreeMap.mem_keys, collected.mem_iff]
    simp only [List.mem_map, List.mem_filter, List.mem_range]
    constructor
    · rintro ⟨index, rfl, inside, here⟩
      exact ⟨index, ⟨inside, here⟩, rfl⟩
    · rintro ⟨index, ⟨inside, here⟩, rfl⟩
      exact ⟨index, rfl, inside, here⟩
  rw [← ExtTreeMap.length_keys, numbers.length_eq, List.length_map]

/-- All parts are there exactly if all pieces arrived. -/
theorem size_eq_iff (collected : Collected pieces arrived parts) :
    parts.size = pieces.length ↔ ∀ index < pieces.length, arrived index = true := by
  have counted : ((List.range pieces.length).filter arrived).length =
      (List.range pieces.length).length ↔ ∀ index ∈ List.range pieces.length,
        arrived index = true := List.length_filter_eq_length_iff
  rw [List.length_range] at counted
  rw [collected.size_eq, counted]
  simp only [List.mem_range]

/-- Once all pieces arrived, the parts in the order of their numbers are the pieces. -/
theorem values_eq (collected : Collected pieces arrived parts)
    (all : ∀ index < pieces.length, arrived index = true) :
    parts.toList.map Prod.snd = pieces := by
  have listed : parts.toList = pieces.mapIdx fun index piece => (index + 1, piece) := by
    apply List.Pairwise.eq_of_mem_iff (r := fun left right : Nat × β => left.1 < right.1)
    · exact ExtTreeMap.ordered_keys_toList.imp Nat.compare_eq_lt.mp
    · rw [List.pairwise_iff_getElem]
      intro first second _ _ before
      simpa using before
    · rintro ⟨number, piece⟩
      rw [ExtTreeMap.mem_toList_iff_getElem?_eq_some, collected number piece, List.mem_mapIdx]
      constructor
      · rintro ⟨index, rfl, given, _⟩
        obtain ⟨inside, rfl⟩ := List.getElem?_eq_some_iff.mp given
        exact ⟨index, inside, rfl⟩
      · rintro ⟨index, inside, same⟩
        cases same
        exact ⟨index, rfl, List.getElem?_eq_getElem inside, all index inside⟩
  rw [listed]
  apply List.ext_getElem?
  intro index
  simp [Function.comp_def]

/-- Another piece arrives, for the first time or again. -/
theorem insertIfNew (collected : Collected pieces arrived parts) {index : Nat} {piece : β}
    (given : pieces[index]? = some piece) :
    Collected pieces (fun other => arrived other || other == index)
      (parts.insertIfNew (index + 1) piece) := by
  intro number other
  rw [ExtTreeMap.getElem?_insertIfNew]
  split
  · next fresh =>
      obtain ⟨same, absent⟩ := fresh
      obtain rfl := Nat.compare_eq_eq.mp same
      constructor
      · rintro ⟨⟩
        exact ⟨index, rfl, given, by simp⟩
      · rintro ⟨position, same, found, _⟩
        obtain rfl := Nat.succ.inj same
        rwa [given] at found
  · next known =>
      rw [collected number other]
      constructor
      · rintro ⟨position, same, found, here⟩
        exact ⟨position, same, found, by simp [here]⟩
      · rintro ⟨position, rfl, found, here⟩
        refine ⟨position, rfl, found, ?_⟩
        rw [Bool.or_eq_true, beq_iff_eq] at here
        cases here with
        | inl before => exact before
        | inr same =>
            subst same
            have held : position + 1 ∈ parts := by
              by_contra absent
              exact known ⟨Nat.compare_eq_eq.mpr rfl, absent⟩
            obtain ⟨_, same, _, here⟩ := collected.mem_iff.mp held
            obtain rfl := Nat.succ.inj same
            exact here

end Collected

end Pieces
