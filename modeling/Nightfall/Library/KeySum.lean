import Mathlib

/-!
# Sums over the keys of an ordered map

A map that is changed one key at a time can carry a running sum of a value
attached to each key.  These are the two laws that keep such a sum exact, for
any commutative monoid and any value assignment.
-/

namespace KeySum

open Std

variable {κ : Type*} {ν : Type*} {A : Type*} [Ord κ] [TransOrd κ]

/-- Sum of `weight` over the keys of a map. -/
def keySum [AddCommMonoid A] (weight : κ → A) (map : ExtTreeMap κ ν compare) : A :=
  (map.keys.map weight).sum

@[simp] theorem keySum_empty [AddCommMonoid A] (weight : κ → A) :
    keySum weight (∅ : ExtTreeMap κ ν compare) = 0 := by
  have noKeys : (∅ : ExtTreeMap κ ν compare).keys = [] :=
    ExtTreeMap.keys_eq_nil_iff.mpr rfl
  simp [keySum, noKeys]

variable [LawfulEqOrd κ]

theorem keys_insert_perm {map : ExtTreeMap κ ν compare} {key : κ} (value : ν)
    (fresh : key ∉ map) :
    (map.insert key value).keys.Perm (key :: map.keys) := by
  have nodup : (key :: map.keys).Nodup :=
    List.nodup_cons.mpr ⟨by simpa using fresh, ExtTreeMap.nodup_keys⟩
  rw [List.perm_ext_iff_of_nodup ExtTreeMap.nodup_keys nodup]
  intro other
  simp [ExtTreeMap.mem_insert, eq_comm (a := key)]

theorem keys_erase_perm {map : ExtTreeMap κ ν compare} {key : κ}
    (member : key ∈ map) : map.keys.Perm (key :: (map.erase key).keys) := by
  have absent : key ∉ (map.erase key).keys := by simp
  have nodup : (key :: (map.erase key).keys).Nodup :=
    List.nodup_cons.mpr ⟨absent, ExtTreeMap.nodup_keys⟩
  rw [List.perm_ext_iff_of_nodup ExtTreeMap.nodup_keys nodup]
  intro other
  by_cases same : other = key
  · subst other
    simpa using member
  · simp [ExtTreeMap.mem_erase, same, Ne.symm same]

/-- Overwriting an entry does not change which keys there are. -/
theorem keys_insert_of_mem {map : ExtTreeMap κ ν compare} {key : κ} (value : ν)
    (member : key ∈ map) : (map.insert key value).keys.Perm map.keys := by
  rw [List.perm_ext_iff_of_nodup ExtTreeMap.nodup_keys ExtTreeMap.nodup_keys]
  intro other
  simp only [ExtTreeMap.mem_keys, ExtTreeMap.mem_insert, Std.compare_eq_iff_eq]
  constructor
  · rintro (rfl | present)
    · exact member
    · exact present
  · exact Or.inr

section Laws

variable [AddCommMonoid A] (weight : κ → A)

theorem keySum_insert {map : ExtTreeMap κ ν compare} {key : κ} (value : ν)
    (fresh : key ∉ map) :
    keySum weight (map.insert key value) = weight key + keySum weight map := by
  unfold keySum
  rw [((keys_insert_perm value fresh).map weight).sum_eq]
  simp

theorem keySum_erase {map : ExtTreeMap κ ν compare} {key : κ}
    (member : key ∈ map) :
    keySum weight map = weight key + keySum weight (map.erase key) := by
  unfold keySum
  rw [((keys_erase_perm member).map weight).sum_eq]
  simp

theorem keySum_insert_of_mem {map : ExtTreeMap κ ν compare} {key : κ} (value : ν)
    (member : key ∈ map) :
    keySum weight (map.insert key value) = keySum weight map :=
  ((keys_insert_of_mem value member).map weight).sum_eq

end Laws

end KeySum
