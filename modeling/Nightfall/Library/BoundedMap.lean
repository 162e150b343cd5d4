import Mathlib

/-!
# Maps of bounded size

A sorted map that gives up its largest keys until it fits a bound.  A key is safe as long
as few keys lie at or below it.
-/

namespace BoundedMap

open Std

variable {κ : Type*} {ν : Type*} [Ord κ] [TransOrd κ]

/-- Drop the largest keys until at most `bound` are left, in at most `fuel` steps. -/
def shrink (bound : Nat) : Nat → ExtTreeMap κ ν compare → ExtTreeMap κ ν compare
  | 0, map => map
  | fuel + 1, map =>
      if map.size > bound then
        match map.maxKey? with
        | some largest => shrink bound fuel (map.erase largest)
        | none => map
      else map

variable {bound fuel : Nat} {map : ExtTreeMap κ ν compare}

theorem maxKey?_ne_none (large : map.size > bound) : map.maxKey? ≠ none := by
  intro missing
  have some := @ExtTreeMap.isSome_maxKey?_eq_not_isEmpty _ _ _ map _
  rw [missing] at some
  have empty : map.isEmpty := by simpa using some
  rw [ExtTreeMap.isEmpty_eq_size_beq_zero] at empty
  have zero : map.size = 0 := by simpa using empty
  omega

/-- Nothing is added. -/
theorem getElem?_of_shrink {key : κ} {value : ν}
    (found : (shrink bound fuel map)[key]? = some value) : map[key]? = some value := by
  induction fuel generalizing map with
  | zero => exact found
  | succ fuel ih =>
      unfold shrink at found
      split at found
      · split at found
        · have kept := ih found
          rw [ExtTreeMap.getElem?_erase] at kept
          split at kept
          · contradiction
          · exact kept
        · exact found
      · exact found

variable [LawfulEqOrd κ]

/-- With enough steps the bound holds. -/
theorem size_shrink (enough : map.size ≤ bound + fuel) : (shrink bound fuel map).size ≤ bound := by
  induction fuel generalizing map with
  | zero => exact enough
  | succ fuel ih =>
      unfold shrink
      split
      · next large =>
          split
          · next largest found =>
              have member := (ExtTreeMap.maxKey?_eq_some_iff_mem_and_forall.mp found).1
              apply ih
              rw [ExtTreeMap.size_erase, if_pos (ExtTreeMap.mem_iff_contains.mp member)]
              omega
          · next missing => exact absurd missing (maxKey?_ne_none large)
      · omega

/-- A key stays while the keys at or below it fit the bound. -/
theorem getElem?_shrink {key : κ} {value : ν} (found : map[key]? = some value) {below : List κ}
    (few : below.length ≤ bound)
    (covers : ∀ other ∈ map, (compare other key).isLE → other ∈ below) :
    (shrink bound fuel map)[key]? = some value := by
  induction fuel generalizing map with
  | zero => exact found
  | succ fuel ih =>
      unfold shrink
      split
      · next large =>
          split
          · next largest isLargest =>
              have highest := (ExtTreeMap.maxKey?_eq_some_iff_mem_and_forall.mp isLargest).2
              have differs : largest ≠ key := by
                rintro rfl
                -- Then every key lies at or below it.
                have part : map.keys ⊆ below := fun other member =>
                  covers other (ExtTreeMap.mem_keys.mp member)
                    (highest other (ExtTreeMap.mem_keys.mp member))
                have counted := (ExtTreeMap.nodup_keys.subperm part).length_le
                rw [ExtTreeMap.length_keys] at counted
                omega
              apply ih
              · rw [ExtTreeMap.getElem?_erase, if_neg (by simpa using differs)]
                exact found
              · intro other member
                exact covers other (ExtTreeMap.mem_of_mem_erase member)
          · exact found
      · exact found

end BoundedMap
