import Nightfall.Library.Guard

/-!
# Maps that take every key once

Reading a list of pairs into a map, refusing a key that is there already.  What was read is
exactly the list of pairs.
-/

namespace OnceMap

open Std (ExtTreeMap)

variable {κ ν : Type} [Ord κ] [Std.TransOrd κ] [Std.LawfulEqOrd κ] {ε : Type}

/-- Put a pair into a map, unless its key is there. -/
def insertOnce (repeated : κ → ε) (map : ExtTreeMap κ ν) (pair : κ × ν) :
    Except ε (ExtTreeMap κ ν) := do
  Guard.refuse (pair.1 ∈ map) (repeated pair.1)
  .ok (map.insert pair.1 pair.2)

/-- The map of a list of pairs. -/
def ofPairs (start : ExtTreeMap κ ν) (pairs : List (κ × ν)) : ExtTreeMap κ ν :=
  pairs.foldl (fun map pair => map.insert pair.1 pair.2) start

variable {repeated : κ → ε} {start result : ExtTreeMap κ ν} {pairs : List (κ × ν)}

/-- Reading succeeds exactly if the keys are new and differ. -/
theorem foldlM_insertOnce_eq_ok : pairs.foldlM (insertOnce repeated) start = .ok result ↔
    (pairs.map Prod.fst).Nodup ∧ (∀ pair ∈ pairs, pair.1 ∉ start) ∧
      result = ofPairs start pairs := by
  induction pairs generalizing start with
  | nil =>
      simp only [List.foldlM_nil, Guard.pure_eq_ok, ofPairs, List.foldl_nil, List.map_nil,
        List.nodup_nil, List.not_mem_nil, IsEmpty.forall_iff, implies_true, true_and]
      exact eq_comm
  | cons pair rest ih =>
      simp only [List.foldlM_cons, Guard.bind_eq_ok, insertOnce, Guard.refuse_eq_ok, ih,
        List.map_cons, List.nodup_cons, List.forall_mem_cons, Except.ok.injEq]
      have later : (∀ other ∈ rest, other.1 ∉ start.insert pair.1 pair.2) ↔
          pair.1 ∉ rest.map Prod.fst ∧ ∀ other ∈ rest, other.1 ∉ start := by
        simp only [ExtTreeMap.mem_insert, Std.compare_eq_iff_eq, not_or, forall_and,
          List.mem_map, not_exists, not_and]
        apply and_congr_left
        intro _
        exact forall₂_congr fun other _ => ne_comm
      constructor
      · rintro ⟨_, ⟨_, new, rfl⟩, distinct, apart, rfl⟩
        obtain ⟨differs, fresh⟩ := later.mp apart
        exact ⟨⟨differs, distinct⟩, ⟨new, fresh⟩, rfl⟩
      · rintro ⟨⟨differs, distinct⟩, ⟨new, fresh⟩, rfl⟩
        exact ⟨_, ⟨(), new, rfl⟩, distinct, later.mpr ⟨differs, fresh⟩, rfl⟩

/-- A map of pairs holds the pairs, if their keys differ. -/
theorem getElem?_ofPairs_eq_some (distinct : (pairs.map Prod.fst).Nodup)
    (fresh : ∀ pair ∈ pairs, pair.1 ∉ start) {key : κ} {value : ν} :
    (ofPairs start pairs)[key]? = some value ↔
      (key, value) ∈ pairs ∨ start[key]? = some value := by
  induction pairs generalizing start with
  | nil => simp [ofPairs]
  | cons pair rest ih =>
      rw [List.map_cons, List.nodup_cons] at distinct
      rw [List.forall_mem_cons] at fresh
      have apart : ∀ other ∈ rest, other.1 ∉ start.insert pair.1 pair.2 := by
        intro other member
        simp only [ExtTreeMap.mem_insert, Std.compare_eq_iff_eq, not_or]
        refine ⟨fun same => distinct.1 ?_, fresh.2 other member⟩
        rw [same]
        exact List.mem_map_of_mem member
      have step : ofPairs start (pair :: rest) =
          ofPairs (start.insert pair.1 pair.2) rest := rfl
      rw [step, ih distinct.2 apart, ExtTreeMap.getElem?_insert, List.mem_cons]
      by_cases here : pair.1 = key
      · subst here
        rw [if_pos (Std.compare_eq_iff_eq.mpr rfl)]
        have absent : start[pair.1]? = none := ExtTreeMap.getElem?_eq_none fresh.1
        have single : (pair.1, value) ∉ rest := fun member =>
          distinct.1 (List.mem_map.mpr ⟨_, member, rfl⟩)
        simp only [Option.some.injEq, absent, reduceCtorEq, or_false, single, false_or,
          Prod.ext_iff, true_and]
        exact eq_comm
      · have other : (key, value) ≠ pair := fun same => here (congrArg Prod.fst same).symm
        rw [if_neg fun same => here (Std.compare_eq_iff_eq.mp same)]
        simp [other]

/-- The keys of a map of pairs. -/
theorem mem_ofPairs (distinct : (pairs.map Prod.fst).Nodup) {key : κ} :
    key ∈ ofPairs ∅ pairs ↔ key ∈ pairs.map Prod.fst := by
  have held := fun value => @getElem?_ofPairs_eq_some κ ν _ _ _ ∅ pairs distinct
    (fun _ _ => ExtTreeMap.not_mem_empty) key value
  simp only [ExtTreeMap.getElem?_empty, reduceCtorEq, or_false] at held
  rw [← ExtTreeMap.isSome_getElem?_iff_mem, Option.isSome_iff_exists, List.mem_map]
  simp only [held]
  constructor
  · rintro ⟨value, member⟩
    exact ⟨_, member, rfl⟩
  · rintro ⟨pair, member, rfl⟩
    exact ⟨pair.2, member⟩

end OnceMap
