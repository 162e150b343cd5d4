import Nightfall.Consensus.Mempool
import Nightfall.Library.LargestFirst
import Nightfall.Library.SortByKey

/-!
# Selection for a block

The transactions of the pool are ranked by fee, then by id, and taken in this order unless they
spend what an earlier one spends.  In a pool that calls have built nothing is ever skipped.
-/

namespace Nightfall

variable {P : Primitives}

/-- The fee that a transaction is ranked by. -/
def rankedFee (tx : Transaction) : UInt64 :=
  tx.checkedTotalFee.getD 0

variable (P) in
/-- The higher fee comes first, and then the smaller id. -/
def feeRank (tx : Transaction) : ℕᵒᵈ ×ₗ ℕ :=
  toLex (OrderDual.toDual (rankedFee tx).toNat, (tx.txid P).toNat)

namespace Mempool

/-- The transactions held. -/
def values (pool : Mempool) : List Transaction :=
  pool.txs.toList.map Prod.snd

/-- Go through the candidates and leave out what spends a spent input. -/
def pick (max : Nat) : List Commitment → List Transaction → List Transaction → List Transaction
  | _, chosen, [] => chosen
  | spent, chosen, tx :: rest =>
      if max ≤ chosen.length then chosen
      else if tx.inputs.any fun input => spent.contains input.commit then
        pick max spent chosen rest
      else pick max (spent ++ tx.inputs.map Input.commit) (chosen ++ [tx]) rest

variable (P) in
/-- Select transactions for a block.  The values come in the order of a hash map, which is any
order. -/
def selectForBlock (values : List Transaction) (max : Nat) : List Transaction :=
  pick max [] [] (SortByKey.sort (feeRank P) values)

/-! ## What selection takes -/

/-- Candidates that are apart from each other and from what is spent are taken in order. -/
theorem pick_of_apart {max : Nat} {spent : List Commitment} {chosen candidates : List Transaction}
    (apart : candidates.Pairwise Apart)
    (unspent : ∀ tx ∈ candidates, List.Disjoint (tx.inputs.map Input.commit) spent) :
    pick max spent chosen candidates = chosen ++ candidates.take (max - chosen.length) := by
  induction candidates generalizing spent chosen with
  | nil => simp [pick]
  | cons tx rest ih =>
      obtain ⟨first, later⟩ := List.pairwise_cons.mp apart
      have free : (tx.inputs.any fun input => spent.contains input.commit) = false := by
        rw [List.any_eq_false]
        intro input member
        rw [List.contains_iff_mem]
        exact unspent tx List.mem_cons_self (List.mem_map_of_mem member)
      rw [pick, free, if_neg Bool.false_ne_true]
      by_cases full : max ≤ chosen.length
      · rw [if_pos full, Nat.sub_eq_zero_of_le full, List.take_zero, List.append_nil]
      · have others : ∀ other ∈ rest,
            List.Disjoint (other.inputs.map Input.commit)
              (spent ++ tx.inputs.map Input.commit) := by
          intro other member
          rw [List.disjoint_append_right]
          exact ⟨unspent other (List.mem_cons_of_mem _ member), (first other member).symm⟩
        have more : max - chosen.length = max - (chosen.length + 1) + 1 := by omega
        rw [if_neg full, ih later others, more, List.take_succ_cons, List.length_append,
          List.length_singleton, List.append_assoc, List.singleton_append]

variable {pool : Mempool}

/-- The transactions of a consistent pool are apart and have different ids. -/
theorem Consistent.values_apart (ok : pool.Consistent P) :
    pool.values.Pairwise Apart ∧ (pool.values.map (Transaction.txid P)).Nodup := by
  have keys : pool.txs.toList.Pairwise fun left right => left.1 ≠ right.1 := by
    have distinct := Std.ExtTreeMap.distinct_keys_toList (t := pool.txs)
    simpa using distinct
  have held : ∀ entry ∈ pool.txs.toList, pool.txs[entry.1]? = some entry.2 :=
    fun entry member => Std.ExtTreeMap.mem_toList_iff_getElem?_eq_some.mp member
  constructor
  · rw [values, List.pairwise_map]
    refine keys.imp_of_mem fun {left right} first second differs => ?_
    exact ok.apart left.1 right.1 left.2 right.2 (held left first) (held right second) differs
  · rw [values, List.map_map, List.Nodup, List.pairwise_map]
    refine keys.imp_of_mem fun {left right} first second differs same => ?_
    apply differs
    rw [ok.named left.1 left.2 (held left first), ok.named right.1 right.2 (held right second)]
    exact congrArg Bytes32.toHex same

theorem length_values : pool.values.length = pool.txs.size := by
  rw [values, List.length_map, Std.ExtTreeMap.length_toList]

/-- The order of the ranks, whatever order the values come in. -/
abbrev ranked (P : Primitives) (pool : Mempool) : List Transaction :=
  SortByKey.sort (feeRank P) pool.values

theorem Consistent.sort_values (ok : pool.Consistent P) {values : List Transaction}
    (enumerated : values.Perm pool.values) :
    SortByKey.sort (feeRank P) values = pool.ranked P := by
  refine SortByKey.sort_eq_of_perm (feeRank P) ?_ enumerated
  refine ((enumerated.map (feeRank P)).nodup_iff).mpr ?_
  have ids := ok.values_apart.2
  refine List.Nodup.of_map (fun rank => (ofLex rank).2) ?_
  have second : (fun rank => (ofLex rank).2) ∘ feeRank P = BitVec.toNat ∘ Transaction.txid P := rfl
  rw [List.map_map, second, ← List.map_map]
  exact ids.map fun _ _ same => BitVec.eq_of_toNat_eq same

theorem Consistent.ranked_apart (ok : pool.Consistent P) : (pool.ranked P).Pairwise Apart :=
  (List.perm_insertionSort _ _).symm.pairwise ok.values_apart.1 Apart.symm

/-- A consistent pool gives the first of its ranked transactions. -/
theorem Consistent.selectForBlock_eq (ok : pool.Consistent P) {values : List Transaction}
    (enumerated : values.Perm pool.values) (max : Nat) :
    selectForBlock P values max = (pool.ranked P).take max := by
  rw [selectForBlock, ok.sort_values enumerated,
    pick_of_apart ok.ranked_apart fun _ _ => List.disjoint_nil_right _, List.nil_append,
    List.length_nil, Nat.sub_zero]

/-- The ranks descend in fee. -/
theorem ranked_descending (pool : Mempool) :
    LargestFirst.Descending (fun tx => (rankedFee tx).toNat) (pool.ranked P) := by
  have sorted := List.pairwise_insertionSort
    (fun left right => feeRank P left ≤ feeRank P right) pool.values
  refine sorted.imp fun {left right} before => ?_
  rcases Prod.Lex.le_iff.mp before with higher | ⟨same, _⟩
  · exact Nat.le_of_lt higher
  · exact Nat.le_of_eq same.symm

/-- From every pool that calls have built, selection takes the transactions with the highest
fees, whatever order the hash map lists them in: as many as there is room for, no two of which
spend the same input, and worth no less than any other choice of this size. -/
theorem selectForBlock_of_run (P : Primitives) (calls : List Call) {values : List Transaction}
    (enumerated : values.Perm (calls.foldl (step P) empty).values) (max : Nat) :
    let pool := calls.foldl (step P) empty
    let chosen := selectForBlock P values max
    chosen = (pool.ranked P).take max ∧
      chosen.length = min max pool.txs.size ∧
      chosen.Pairwise Apart ∧
      (∀ tx ∈ pool.values, tx ∉ chosen → ∀ taken ∈ chosen, rankedFee tx ≤ rankedFee taken) ∧
      ∀ others : List Transaction, others.Subperm pool.values → others.length ≤ max →
        LargestFirst.total (fun tx => (rankedFee tx).toNat) others ≤
          LargestFirst.total (fun tx => (rankedFee tx).toNat) chosen := by
  intro pool chosen
  have ok : pool.Consistent P := consistent_run P calls
  have taken : chosen = (pool.ranked P).take max := ok.selectForBlock_eq enumerated max
  have perm : (pool.ranked P).Perm pool.values := List.perm_insertionSort _ _
  refine ⟨taken, ?_, ?_, ?_, ?_⟩
  · rw [taken, List.length_take, perm.length_eq, length_values]
  · rw [taken]
    exact ok.ranked_apart.sublist (List.take_sublist _ _)
  · intro tx held left other member
    rw [taken] at left member
    have descending := ranked_descending (P := P) pool
    rw [LargestFirst.Descending, ← List.take_append_drop max (pool.ranked P),
      List.pairwise_append] at descending
    have rest : tx ∈ (pool.ranked P).drop max := by
      have listed := perm.mem_iff.mpr held
      rw [← List.take_append_drop max (pool.ranked P), List.mem_append] at listed
      exact listed.resolve_left left
    exact UInt64.le_iff_toNat_le.mpr (descending.2.2 other member tx rest)
  · intro others within few
    rw [taken]
    have within := within.trans perm.symm.subperm
    exact (LargestFirst.total_le_take (ranked_descending pool) within).trans
      (LargestFirst.total_take_mono few)

end Mempool

open Sample in
theorem Mempool.selectForBlock_of_run_sample :
    (Mempool.selectForBlock primitives [twoInputs] 1).length =
      min 1 ([Mempool.Call.insertChecked twoInputs 5].foldl (Mempool.step primitives)
        .empty).txs.size :=
  (Mempool.selectForBlock_of_run primitives [.insertChecked twoInputs 5]
    (by decide +kernel : [twoInputs].Perm _) 1).2.1

end Nightfall
