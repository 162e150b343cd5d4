import Nightfall.Library.SortByKey
import Nightfall.Ledger.Aggregate
import Nightfall.Sample

/-!
# Aggregation forgets the order of transactions

A body is the sorted union of the three sets and the sum of the two offsets.  Both are
determined by the multiset of transactions, also when some of them were merged before.
-/

namespace Nightfall

variable (P : Primitives)

/-! ## Offsets -/

/-- The scalar that an offset adds; an absent or undecodable one adds nothing. -/
def offsetScalar (offset : Option Bytes32) : P.Scalar :=
  (offset.bind P.scalarFromBytes).getD 0

/-- Sum of a list of offsets, absent when all of them are. -/
def offsetTotal (offsets : List (Option Bytes32)) : Option Bytes32 :=
  if offsets.any Option.isSome then
    some (P.scalarToBytes (offsets.map (offsetScalar P)).sum)
  else none

variable {P}

@[simp] theorem offsetScalar_none : offsetScalar P none = 0 := rfl

@[simp] theorem offsetScalar_toBytes (scalar : P.Scalar) :
    offsetScalar P (some (P.scalarToBytes scalar)) = scalar := by
  simp [offsetScalar, P.scalarFromBytes_toBytes]

theorem offsetScalar_eq_zero_of_not_any {offsets : List (Option Bytes32)}
    (absent : offsets.any Option.isSome = false) : (offsets.map (offsetScalar P)).sum = 0 := by
  apply List.sum_eq_zero
  intro scalar member
  obtain ⟨offset, inOffsets, rfl⟩ := List.mem_map.mp member
  have none := List.any_eq_false.mp absent offset inOffsets
  rw [Option.not_isSome_iff_eq_none] at none
  rw [none, offsetScalar_none]

/-- The total stands for its summands. -/
theorem offsetScalar_offsetTotal (offsets : List (Option Bytes32)) :
    offsetScalar P (offsetTotal P offsets) = (offsets.map (offsetScalar P)).sum := by
  unfold offsetTotal
  split
  · exact offsetScalar_toBytes _
  · next absent => rw [offsetScalar_eq_zero_of_not_any (by simpa using absent), offsetScalar_none]

theorem isSome_offsetTotal (offsets : List (Option Bytes32)) :
    (offsetTotal P offsets).isSome = offsets.any Option.isSome := by
  unfold offsetTotal
  split
  · next present => simp [present]
  · next absent => simpa using absent

theorem addOffsets_eq (left right : Option Bytes32) :
    addOffsets P left right = offsetTotal P [left, right] := by
  cases left with
  | none =>
      cases right with
      | none => rfl
      | some right => simp [addOffsets, offsetTotal, offsetScalar]
  | some left => simp [addOffsets, offsetTotal, offsetScalar]

/-- Totals can be taken in groups. -/
theorem offsetTotal_congr {left right : List (Option Bytes32)}
    (some' : left.any Option.isSome = right.any Option.isSome)
    (sums : (left.map (offsetScalar P)).sum = (right.map (offsetScalar P)).sum) :
    offsetTotal P left = offsetTotal P right := by
  rw [offsetTotal, offsetTotal, some', sums]

theorem offsetTotal_perm {left right : List (Option Bytes32)} (perm : left.Perm right) :
    offsetTotal P left = offsetTotal P right :=
  offsetTotal_congr (perm.any_eq) (perm.map _).sum_eq

/-- Adding the offsets one after the other gives their total. -/
theorem foldl_addOffsets (start : List (Option Bytes32)) (offsets : List (Option Bytes32)) :
    offsets.foldl (addOffsets P) (offsetTotal P start) = offsetTotal P (start ++ offsets) := by
  induction offsets generalizing start with
  | nil => simp
  | cons offset rest ih =>
      have step : addOffsets P (offsetTotal P start) offset = offsetTotal P (start ++ [offset]) := by
        rw [addOffsets_eq]
        apply offsetTotal_congr
        · simp [isSome_offsetTotal]
        · simp [offsetScalar_offsetTotal]
      rw [List.foldl_cons, step, ih]
      simp

theorem foldl_addOffsets_none (offsets : List (Option Bytes32)) :
    offsets.foldl (addOffsets P) none = offsetTotal P offsets :=
  foldl_addOffsets [] offsets

theorem offsetTotal_singleton (offsets : List (Option Bytes32)) :
    offsetTotal P [offsetTotal P offsets] = offsetTotal P offsets := by
  apply offsetTotal_congr
  · simp [isSome_offsetTotal]
  · simp [offsetScalar_offsetTotal]

/-- The total of a concatenation is determined by the totals of its parts. -/
theorem offsetTotal_append {first second first' second' : List (Option Bytes32)}
    (left : offsetTotal P first = offsetTotal P first')
    (right : offsetTotal P second = offsetTotal P second') :
    offsetTotal P (first ++ second) = offsetTotal P (first' ++ second') := by
  have leftSome := congrArg Option.isSome left
  have rightSome := congrArg Option.isSome right
  have leftSum := congrArg (offsetScalar P) left
  have rightSum := congrArg (offsetScalar P) right
  simp only [isSome_offsetTotal, offsetScalar_offsetTotal] at leftSome rightSome leftSum rightSum
  apply offsetTotal_congr
  · rw [List.any_append, List.any_append, leftSome, rightSome]
  · rw [List.map_append, List.map_append, List.sum_append, List.sum_append, leftSum, rightSum]

/-! ## Merging transactions -/

/-- What one transaction of a regrouped list stands for: itself, or the union of a group
whose offsets were added up, its sets in any order. -/
inductive Regroups (P : Primitives) : Transaction → List Transaction → Prop where
  | alone (tx : Transaction) : Regroups P tx [tx]
  | merged {merged : Transaction} {group : List Transaction}
      (inputs : merged.inputs.Perm (group.flatMap Transaction.inputs))
      (outputs : merged.outputs.Perm (group.flatMap Transaction.outputs))
      (kernels : merged.kernels.Perm (group.flatMap Transaction.kernels))
      (stealthOffset : merged.stealthOffset =
        (group.map Transaction.stealthOffset).foldl (addOffsets P) none)
      (kernelOffset : merged.kernelOffset =
        (group.map Transaction.kernelOffset).foldl (addOffsets P) none) :
      Regroups P merged group

/-- Two lists of transactions with the same contents. -/
structure SameContents (P : Primitives) (left right : List Transaction) : Prop where
  inputs : (left.flatMap Transaction.inputs).Perm (right.flatMap Transaction.inputs)
  outputs : (left.flatMap Transaction.outputs).Perm (right.flatMap Transaction.outputs)
  kernels : (left.flatMap Transaction.kernels).Perm (right.flatMap Transaction.kernels)
  stealthOffset : offsetTotal P (left.map Transaction.stealthOffset) =
    offsetTotal P (right.map Transaction.stealthOffset)
  kernelOffset : offsetTotal P (left.map Transaction.kernelOffset) =
    offsetTotal P (right.map Transaction.kernelOffset)

namespace SameContents

theorem refl (txs : List Transaction) : SameContents P txs txs :=
  ⟨.refl _, .refl _, .refl _, rfl, rfl⟩

theorem symm {left right : List Transaction} (same : SameContents P left right) :
    SameContents P right left where
  inputs := same.inputs.symm
  outputs := same.outputs.symm
  kernels := same.kernels.symm
  stealthOffset := same.stealthOffset.symm
  kernelOffset := same.kernelOffset.symm

theorem trans {first second third : List Transaction} (left : SameContents P first second)
    (right : SameContents P second third) : SameContents P first third where
  inputs := left.inputs.trans right.inputs
  outputs := left.outputs.trans right.outputs
  kernels := left.kernels.trans right.kernels
  stealthOffset := left.stealthOffset.trans right.stealthOffset
  kernelOffset := left.kernelOffset.trans right.kernelOffset

theorem of_perm {left right : List Transaction} (perm : left.Perm right) :
    SameContents P left right where
  inputs := perm.flatMap_right _
  outputs := perm.flatMap_right _
  kernels := perm.flatMap_right _
  stealthOffset := offsetTotal_perm (perm.map _)
  kernelOffset := offsetTotal_perm (perm.map _)

theorem append {first second first' second' : List Transaction}
    (left : SameContents P first first') (right : SameContents P second second') :
    SameContents P (first ++ second) (first' ++ second') where
  inputs := by simpa using left.inputs.append right.inputs
  outputs := by simpa using left.outputs.append right.outputs
  kernels := by simpa using left.kernels.append right.kernels
  stealthOffset := by simpa using offsetTotal_append left.stealthOffset right.stealthOffset
  kernelOffset := by simpa using offsetTotal_append left.kernelOffset right.kernelOffset

/-- A merged transaction has the contents of its group. -/
theorem of_regroups {merged : Transaction} {group : List Transaction}
    (regroups : Regroups P merged group) : SameContents P [merged] group := by
  cases regroups with
  | alone => exact refl _
  | merged inputs outputs kernels stealthOffset kernelOffset =>
      refine ⟨by simpa using inputs, by simpa using outputs, by simpa using kernels, ?_, ?_⟩
      · rw [List.map_singleton, stealthOffset, foldl_addOffsets_none, offsetTotal_singleton]
      · rw [List.map_singleton, kernelOffset, foldl_addOffsets_none, offsetTotal_singleton]

theorem of_regrouping {merged : List Transaction} {groups : List (List Transaction)}
    (regrouping : List.Forall₂ (Regroups P) merged groups) :
    SameContents P merged groups.flatten := by
  induction regrouping with
  | nil => exact refl _
  | cons first _ ih => exact (of_regroups first).append ih

end SameContents

/-! ## The aggregate -/

namespace BlockBody

theorem foldl_absorb (txs : List Transaction) (body : BlockBody) :
    txs.foldl (absorb P) body = {
      inputs := body.inputs ++ txs.flatMap Transaction.inputs
      outputs := body.outputs ++ txs.flatMap Transaction.outputs
      kernels := body.kernels ++ txs.flatMap Transaction.kernels
      stealthOffset := (txs.map Transaction.stealthOffset).foldl (addOffsets P) body.stealthOffset
      kernelOffset := (txs.map Transaction.kernelOffset).foldl (addOffsets P)
        body.kernelOffset } := by
  induction txs generalizing body with
  | nil => simp
  | cons tx rest ih => simp [ih, absorb]

theorem aggregate_eq (txs : List Transaction) :
    aggregate P txs = {
      inputs := SortByKey.sort Input.commit (txs.flatMap Transaction.inputs)
      outputs := SortByKey.sort Output.commit (txs.flatMap Transaction.outputs)
      kernels := SortByKey.sort (TxKernel.id P) (txs.flatMap Transaction.kernels)
      stealthOffset := offsetTotal P (txs.map Transaction.stealthOffset)
      kernelOffset := offsetTotal P (txs.map Transaction.kernelOffset) } := by
  rw [aggregate, foldl_absorb]
  simp only [canonicalise, empty, List.nil_append, foldl_addOffsets_none]

theorem canonicalise_canonicalise (body : BlockBody) :
    (body.canonicalise P).canonicalise P = body.canonicalise P := by
  simp only [canonicalise, SortByKey.sort_sort]

/-- The three sets of a list of transactions hold every key once. -/
structure Distinct (P : Primitives) (txs : List Transaction) : Prop where
  inputs : ((txs.flatMap Transaction.inputs).map Input.commit).Nodup
  outputs : ((txs.flatMap Transaction.outputs).map Output.commit).Nodup
  kernels : ((txs.flatMap Transaction.kernels).map (TxKernel.id P)).Nodup

instance (txs : List Transaction) : Decidable (Distinct P txs) :=
  decidable_of_iff
    (((txs.flatMap Transaction.inputs).map Input.commit).Nodup ∧
      ((txs.flatMap Transaction.outputs).map Output.commit).Nodup ∧
      ((txs.flatMap Transaction.kernels).map (TxKernel.id P)).Nodup)
    ⟨fun ⟨inputs, outputs, kernels⟩ => ⟨inputs, outputs, kernels⟩,
      fun distinct => ⟨distinct.inputs, distinct.outputs, distinct.kernels⟩⟩

/-- The same contents give the same body. -/
theorem aggregate_congr {left right : List Transaction} (distinct : Distinct P left)
    (same : SameContents P left right) : aggregate P left = aggregate P right := by
  rw [aggregate_eq, aggregate_eq, same.stealthOffset, same.kernelOffset,
    SortByKey.sort_eq_of_perm Input.commit distinct.inputs same.inputs,
    SortByKey.sort_eq_of_perm Output.commit distinct.outputs same.outputs,
    SortByKey.sort_eq_of_perm (TxKernel.id P) distinct.kernels same.kernels]

/-- Aggregation depends on neither the order nor the grouping of the transactions, and
keeps every element of every one of them. -/
theorem aggregate_independent {txs : List Transaction} (distinct : Distinct P txs) :
    (∀ other : List Transaction, other.Perm txs → aggregate P other = aggregate P txs) ∧
    (∀ (groups : List (List Transaction)) (merged : List Transaction), groups.flatten.Perm txs →
      List.Forall₂ (Regroups P) merged groups →
        aggregate P merged = aggregate P txs ∧
          (aggregate P merged).hash P = (aggregate P txs).hash P) ∧
    (aggregate P txs).isCanonical P = true ∧
    (aggregate P txs).inputs.Perm (txs.flatMap Transaction.inputs) ∧
    (aggregate P txs).outputs.Perm (txs.flatMap Transaction.outputs) ∧
    (aggregate P txs).kernels.Perm (txs.flatMap Transaction.kernels) ∧
    ∀ body : BlockBody, (body.canonicalise P).canonicalise P = body.canonicalise P := by
  have shape := aggregate_eq (P := P) txs
  refine ⟨fun other perm => ?_, fun groups merged perm regrouping => ?_, ?_, ?_, ?_, ?_,
    canonicalise_canonicalise⟩
  · exact (aggregate_congr distinct (.of_perm perm.symm)).symm
  · have same : SameContents P merged txs :=
      (SameContents.of_regrouping regrouping).trans (.of_perm perm)
    have body := aggregate_congr distinct same.symm
    exact ⟨body.symm, congrArg (BlockBody.hash P) body.symm⟩
  · rw [isCanonical, decide_eq_true_eq, aggregate, canonicalise_canonicalise]
  · rw [shape]
    exact List.perm_insertionSort _ _
  · rw [shape]
    exact List.perm_insertionSort _ _
  · rw [shape]
    exact List.perm_insertionSort _ _

section Sample

open Sample

/-- Two transactions whose kernel offsets cancel. -/
def offsetTx (value : Nat) (offset : Bytes32) : Transaction where
  version := 2
  inputs := [inputOf (commitTo value 3)]
  outputs := [outputOf .plain (commitTo value 1)]
  kernels := [kernelOf .plain 0 0 value]
  stealthOffset := none
  kernelOffset := some offset

theorem aggregate_independent_offsets :
    aggregate primitives [offsetTx 8 (compress (-5)), offsetTx 9 (compress 5)] =
      aggregate primitives [offsetTx 9 (compress 5), offsetTx 8 (compress (-5))] :=
  (aggregate_independent (by decide +kernel)).1 _ (.swap _ _ [])

end Sample

end BlockBody

end Nightfall
