import Nightfall.Ledger.BodyHash
import Nightfall.Sample

/-!
# The mempool

Transactions that wait for a block, with the time at which each was first seen.  The first
transaction that spends an input wins; only its fully bound version takes its place.
-/

namespace Nightfall

open Std (ExtTreeMap)

/-- What an insertion did with a transaction. -/
inductive InsertOutcome where
  | added
  /-- Already held under this id. -/
  | known
  /-- Spends an input that a held transaction already spends. -/
  | conflict
  /-- The pool is full of live entries. -/
  | full
  deriving DecidableEq

structure Mempool where
  txs : ExtTreeMap Bytes Transaction compare
  /-- When each transaction was first seen. -/
  seen : ExtTreeMap Bytes UInt64 compare

namespace Mempool

def empty : Mempool := ⟨∅, ∅⟩

def maxEntries : Nat := 10000

/-- Six hours. -/
def maxAgeSecs : UInt64 := 6 * 3600

/-- Keep these transactions and their times. -/
def retain (pool : Mempool) (keep : Bytes → Transaction → Bool) : Mempool :=
  let txs := pool.txs.filter keep
  { txs := txs
    seen := pool.seen.filter fun id _ => txs.contains id }

/-- Forget transactions that no block took, and say how many. -/
def expire (pool : Mempool) (nowUnix : UInt64) : Nat × Mempool :=
  let cutoff := Machine.saturatingSub nowUnix maxAgeSecs
  let live := pool.retain fun id _ =>
    (pool.seen[id]?.map fun first => decide (cutoff < first)).getD true
  (pool.txs.size - live.txs.size, live)

/-- A full pool is swept before anything is refused. -/
def makeRoom (pool : Mempool) (nowUnix : UInt64) : Mempool :=
  if maxEntries ≤ pool.txs.size then (pool.expire nowUnix).2 else pool

/-- The held transactions that spend an input of the transaction. -/
def conflicts (pool : Mempool) (tx : Transaction) : List Bytes :=
  let wanted := tx.inputs.map Input.commit
  (pool.txs.toList.filter fun entry =>
    entry.2.inputs.any fun input => wanted.contains input.commit).map Prod.fst

/-- The same spend with its binding fields, which the held transaction lacks. -/
def isUpgrade (P : Primitives) (held tx : Transaction) : Bool :=
  !held.hasFullBinding && tx.hasFullBinding && held.legacyTxid P == tx.legacyTxid P

/-- Take a transaction, and say why when it was not taken. -/
def insertChecked (P : Primitives) (pool : Mempool) (tx : Transaction) (nowUnix : UInt64) :
    InsertOutcome × Mempool :=
  let pool := pool.makeRoom nowUnix
  if maxEntries ≤ pool.txs.size then (.full, pool)
  else
    let id := (tx.txid P).toHex
    if pool.txs.contains id then (.known, pool)
    else
      match pool.conflicts tx with
      | [] =>
          (.added,
            { txs := pool.txs.insert id tx
              seen := pool.seen.insertIfNew id nowUnix })
      | conflict :: others =>
          if others.isEmpty && (pool.txs[conflict]?).any fun held => isUpgrade P held tx then
            let first := pool.seen[conflict]?.getD nowUnix
            (.added,
              { txs := (pool.txs.erase conflict).insert id tx
                seen := (pool.seen.erase conflict).insert id first })
          else (.conflict, pool)

/-- Drop everything that the block consumed or created. -/
def removeIncluded (pool : Mempool) (block : Block) : Mempool :=
  let spent := block.body.inputs.map Input.commit
  let created := block.body.outputs.map Output.commit
  pool.retain fun _ tx =>
    let consumed := tx.inputs.any fun input => spent.contains input.commit
    let duplicated := tx.outputs.any fun output => created.contains output.commit
    !consumed && !duplicated

/-- Forget these transactions, and say how many. -/
def dropIds (pool : Mempool) (ids : List Bytes) : Nat × Mempool :=
  let left := ids.foldl
    (fun pool id => { txs := pool.txs.erase id, seen := pool.seen.erase id }) pool
  (pool.txs.size - left.txs.size, left)

/-- A call that changes the pool. -/
inductive Call where
  | insertChecked (tx : Transaction) (nowUnix : UInt64)
  | expire (nowUnix : UInt64)
  | removeIncluded (block : Block)
  | dropIds (ids : List Bytes)

/-- The pool that a call leaves behind. -/
def step (P : Primitives) (pool : Mempool) : Call → Mempool
  | .insertChecked tx nowUnix => (pool.insertChecked P tx nowUnix).2
  | .expire nowUnix => (pool.expire nowUnix).2
  | .removeIncluded block => pool.removeIncluded block
  | .dropIds ids => (pool.dropIds ids).2

/-! ## What holds of every pool -/

/-- The two transactions spend no input in common. -/
def Apart (left right : Transaction) : Prop :=
  List.Disjoint (left.inputs.map Input.commit) (right.inputs.map Input.commit)

/-- Both maps have the same keys, which are the ids of the transactions held, no two of
these spend the same input, and there are not too many of them. -/
structure Consistent (P : Primitives) (pool : Mempool) : Prop where
  keys : ∀ id, id ∈ pool.txs ↔ id ∈ pool.seen
  named : ∀ (id : Bytes) (tx : Transaction), pool.txs[id]? = some tx → id = (tx.txid P).toHex
  apart : ∀ (left right : Bytes) (one other : Transaction), pool.txs[left]? = some one →
    pool.txs[right]? = some other → left ≠ right → Apart one other
  bounded : pool.txs.size ≤ maxEntries

variable {P : Primitives} {pool : Mempool} {tx : Transaction} {id : Bytes} {nowUnix : UInt64}

theorem consistent_empty : empty.Consistent P where
  keys := by simp [empty]
  named := by simp [empty]
  apart := by simp [empty]
  bounded := by simp [empty]

theorem Apart.symm {left right : Transaction} (apart : Apart left right) : Apart right left :=
  List.Disjoint.symm apart

/-! ### Fewer transactions -/

theorem getElem?_retain {keep : Bytes → Transaction → Bool} :
    (pool.retain keep).txs[id]? = pool.txs[id]?.filter (keep id) :=
  ExtTreeMap.getElem?_filter'

theorem getElem?_of_retain {keep : Bytes → Transaction → Bool}
    (held : (pool.retain keep).txs[id]? = some tx) : pool.txs[id]? = some tx := by
  rw [getElem?_retain] at held
  exact (Option.filter_eq_some_iff.mp held).1

theorem seen_retain {keep : Bytes → Transaction → Bool} (held : id ∈ (pool.retain keep).txs) :
    (pool.retain keep).seen[id]? = pool.seen[id]? := by
  have kept : (pool.retain keep).txs.contains id = true := ExtTreeMap.mem_iff_contains.mp held
  have filtered : (pool.retain keep).seen[id]? =
      pool.seen[id]?.filter fun _ => (pool.retain keep).txs.contains id :=
    ExtTreeMap.getElem?_filter'
  rw [filtered, kept]
  cases pool.seen[id]? <;> rfl

theorem Consistent.retain (ok : pool.Consistent P) (keep : Bytes → Transaction → Bool) :
    (pool.retain keep).Consistent P where
  keys id := by
    constructor
    · intro held
      have before : id ∈ pool.seen := (ok.keys id).mp (ExtTreeMap.mem_of_mem_filter held)
      rw [ExtTreeMap.mem_iff_isSome_getElem?] at before ⊢
      rwa [seen_retain held]
    · intro dated
      obtain ⟨_, kept⟩ := ExtTreeMap.mem_filter.mp dated
      exact ExtTreeMap.mem_iff_contains.mpr (by simpa [Mempool.retain] using kept)
  named id tx held := ok.named id tx (getElem?_of_retain held)
  apart left right one other first second :=
    ok.apart left right one other (getElem?_of_retain first) (getElem?_of_retain second)
  bounded := ExtTreeMap.size_filter_le_size.trans ok.bounded

theorem Consistent.makeRoom (ok : pool.Consistent P) (nowUnix : UInt64) :
    (pool.makeRoom nowUnix).Consistent P := by
  unfold Mempool.makeRoom
  split
  · exact ok.retain _
  · exact ok

/-- Sweeping keeps the times of what it keeps. -/
theorem makeRoom_spec {held : Transaction}
    (kept : (pool.makeRoom nowUnix).txs[id]? = some held) :
    pool.txs[id]? = some held ∧ (pool.makeRoom nowUnix).seen[id]? = pool.seen[id]? := by
  unfold makeRoom at kept ⊢
  split
  · next full =>
      rw [if_pos full] at kept
      have member : id ∈ (pool.expire nowUnix).2.txs :=
        ExtTreeMap.mem_iff_isSome_getElem?.mpr (Option.isSome_of_eq_some kept)
      exact ⟨getElem?_of_retain kept, seen_retain member⟩
  · next room =>
      rw [if_neg room] at kept
      exact ⟨kept, rfl⟩

/-- Erasing a key from both maps. -/
def without (pool : Mempool) (id : Bytes) : Mempool :=
  { txs := pool.txs.erase id, seen := pool.seen.erase id }

theorem getElem?_of_without {other : Bytes} (held : (pool.without id).txs[other]? = some tx) :
    pool.txs[other]? = some tx ∧ other ≠ id := by
  simp only [without, ExtTreeMap.getElem?_erase, Std.compare_eq_iff_eq] at held
  split at held
  · cases held
  · next differs => exact ⟨held, fun same => differs same.symm⟩

theorem Consistent.without (ok : pool.Consistent P) (id : Bytes) :
    (pool.without id).Consistent P where
  keys other := by
    simp only [Mempool.without, ExtTreeMap.mem_erase]
    rw [ok.keys]
  named other tx held := ok.named other tx (getElem?_of_without held).1
  apart left right one other first second :=
    ok.apart left right one other (getElem?_of_without first).1 (getElem?_of_without second).1
  bounded := ExtTreeMap.size_erase_le.trans ok.bounded

theorem Consistent.dropIds (ok : pool.Consistent P) (ids : List Bytes) :
    (pool.dropIds ids).2.Consistent P := by
  simp only [Mempool.dropIds]
  induction ids generalizing pool with
  | nil => exact ok
  | cons id rest ih => exact ih (ok.without id)

/-! ### One more transaction -/

/-- Put a transaction with its time into both maps. -/
def withEntry (pool : Mempool) (id : Bytes) (tx : Transaction) (first : UInt64) : Mempool :=
  { txs := pool.txs.insert id tx, seen := pool.seen.insert id first }

theorem getElem?_withEntry {other : Bytes} {first : UInt64} :
    (pool.withEntry id tx first).txs[other]? =
      if id = other then some tx else pool.txs[other]? := by
  simp [withEntry, ExtTreeMap.getElem?_insert]

theorem Consistent.withEntry (ok : pool.Consistent P) {first : UInt64}
    (room : pool.txs.size < maxEntries)
    (apart : ∀ (id : Bytes) (held : Transaction), pool.txs[id]? = some held → Apart tx held) :
    (pool.withEntry (tx.txid P).toHex tx first).Consistent P where
  keys other := by
    simp only [Mempool.withEntry, ExtTreeMap.mem_insert]
    rw [ok.keys]
  named other held found := by
    rw [getElem?_withEntry] at found
    split at found
    · next same =>
        cases found
        exact same.symm
    · exact ok.named other held found
  apart left right one other firstHeld secondHeld differs := by
    rw [getElem?_withEntry] at firstHeld secondHeld
    split at firstHeld
    · next same =>
        cases firstHeld
        rw [if_neg fun here => differs (same.symm.trans here)] at secondHeld
        exact apart right other secondHeld
    · split at secondHeld
      · cases secondHeld
        exact (apart left one firstHeld).symm
      · exact ok.apart left right one other firstHeld secondHeld differs
  bounded := ExtTreeMap.size_insert_le.trans room

theorem mem_conflicts {key : Bytes} :
    key ∈ pool.conflicts tx ↔ ∃ held, pool.txs[key]? = some held ∧ ¬Apart tx held := by
  have shares (held : Transaction) :
      (held.inputs.any fun input => (tx.inputs.map Input.commit).contains input.commit) = true ↔
        ¬Apart tx held := by
    simp only [Apart, List.Disjoint, List.any_eq_true, List.contains_iff_mem, List.mem_map,
      not_forall]
    constructor
    · rintro ⟨input, inHeld, own, inTx, same⟩
      exact ⟨input.commit, ⟨own, inTx, same⟩, ⟨input, inHeld, rfl⟩, not_false⟩
    · rintro ⟨_, ⟨own, inTx, rfl⟩, ⟨input, inHeld, same⟩, _⟩
      exact ⟨input, inHeld, own, inTx, same.symm⟩
  simp only [conflicts, List.mem_map, List.mem_filter, shares]
  constructor
  · rintro ⟨⟨key, held⟩, ⟨member, conflict⟩, rfl⟩
    exact ⟨held, ExtTreeMap.mem_toList_iff_getElem?_eq_some.mp member, conflict⟩
  · rintro ⟨held, found, conflict⟩
    exact ⟨(key, held), ⟨ExtTreeMap.mem_toList_iff_getElem?_eq_some.mpr found, conflict⟩, rfl⟩

/-- What an insertion can do: nothing beyond the sweep, take the transaction beside all
others, or take it in the place of the one that it upgrades. -/
theorem insertChecked_cases (pool : Mempool) (tx : Transaction) (nowUnix : UInt64) :
    (pool.insertChecked P tx nowUnix).2 = pool.makeRoom nowUnix ∨
    ((pool.makeRoom nowUnix).txs.size < maxEntries ∧
      (tx.txid P).toHex ∉ (pool.makeRoom nowUnix).txs ∧
      (pool.makeRoom nowUnix).conflicts tx = [] ∧
      (pool.insertChecked P tx nowUnix).2 =
        { txs := (pool.makeRoom nowUnix).txs.insert (tx.txid P).toHex tx
          seen := (pool.makeRoom nowUnix).seen.insertIfNew (tx.txid P).toHex nowUnix }) ∨
    ∃ conflict held, (pool.makeRoom nowUnix).txs.size < maxEntries ∧
      (tx.txid P).toHex ∉ (pool.makeRoom nowUnix).txs ∧
      (pool.makeRoom nowUnix).conflicts tx = [conflict] ∧
      (pool.makeRoom nowUnix).txs[conflict]? = some held ∧ isUpgrade P held tx = true ∧
      (pool.insertChecked P tx nowUnix).2 =
        ((pool.makeRoom nowUnix).without conflict).withEntry (tx.txid P).toHex tx
          ((pool.makeRoom nowUnix).seen[conflict]?.getD nowUnix) := by
  unfold insertChecked
  generalize pool.makeRoom nowUnix = room
  simp only
  split
  · exact .inl rfl
  · next free =>
      split
      · exact .inl rfl
      · next fresh =>
          have absent : (tx.txid P).toHex ∉ room.txs := by
            rwa [ExtTreeMap.mem_iff_contains]
          split
          · next none => exact .inr (.inl ⟨Nat.not_le.mp free, absent, none, rfl⟩)
          · next conflict others found =>
              split
              · next upgrade =>
                  rw [Bool.and_eq_true, List.isEmpty_iff, Option.any_eq_true_iff_get] at upgrade
                  obtain ⟨rfl, some, upgrade⟩ := upgrade
                  refine .inr (.inr ⟨conflict, _, Nat.not_le.mp free, absent, found,
                    (Option.some_get some).symm, upgrade, rfl⟩)
              · exact .inl rfl

theorem Consistent.insertChecked (ok : pool.Consistent P) (tx : Transaction) (nowUnix : UInt64) :
    (pool.insertChecked P tx nowUnix).2.Consistent P := by
  have swept := ok.makeRoom nowUnix
  rcases pool.insertChecked_cases (P := P) tx nowUnix with
    same | ⟨free, absent, none, added⟩ | ⟨conflict, held, free, absent, one, found, _, replaced⟩
  · rw [same]
    exact swept
  · have undated : (tx.txid P).toHex ∉ (pool.makeRoom nowUnix).seen := by
      rwa [← swept.keys]
    have fresh : (pool.makeRoom nowUnix).seen.insertIfNew (tx.txid P).toHex nowUnix =
        (pool.makeRoom nowUnix).seen.insert (tx.txid P).toHex nowUnix := by
      apply ExtTreeMap.ext_getElem?
      intro key
      rw [ExtTreeMap.getElem?_insertIfNew, ExtTreeMap.getElem?_insert]
      by_cases same : compare (tx.txid P).toHex key = .eq
      · simp [same, undated]
      · simp [same]
    rw [added, fresh]
    apply swept.withEntry free
    intro id held found
    by_contra conflict
    have member := mem_conflicts.mpr ⟨held, found, conflict⟩
    rw [none] at member
    cases member
  · rw [replaced]
    have member : conflict ∈ (pool.makeRoom nowUnix).txs :=
      ExtTreeMap.mem_iff_isSome_getElem?.mpr (Option.isSome_of_eq_some found)
    apply (swept.without conflict).withEntry (ExtTreeMap.size_erase_le.trans_lt free)
    intro id other present
    obtain ⟨present, differs⟩ := getElem?_of_without present
    by_contra conflicting
    have listed := mem_conflicts.mpr ⟨other, present, conflicting⟩
    rw [one] at listed
    exact differs (List.mem_singleton.mp listed)

/-- Every call keeps the pool consistent. -/
theorem Consistent.step (ok : pool.Consistent P) (call : Call) :
    (pool.step P call).Consistent P := by
  cases call with
  | insertChecked tx nowUnix => exact ok.insertChecked tx nowUnix
  | expire nowUnix => exact ok.retain _
  | removeIncluded block => exact ok.retain _
  | dropIds ids => exact ok.dropIds ids

theorem consistent_run (P : Primitives) (calls : List Call) :
    (calls.foldl (step P) empty).Consistent P := by
  have kept (start : Mempool) (ok : start.Consistent P) :
      (calls.foldl (step P) start).Consistent P := by
    induction calls generalizing start with
    | nil => exact ok
    | cons call rest ih => exact ih _ (ok.step call)
  exact kept empty consistent_empty

end Mempool

/-! ## Replacement -/

namespace Transaction

/-- The parts that the id without binding fields hashes. -/
def legacyParts (P : Primitives) (tx : Transaction) : List Bytes :=
  ((tx.inputs.map Input.commit).insertionSort (· ≤ ·)).map Bytes32.toBytes ++
    tx.outputs.map Output.commitmentBytes ++
    tx.kernels.map fun kernel => kernel.signingMessage P

variable {P : Primitives} {held tx : Transaction}

theorem legacyTxid_eq (tx : Transaction) :
    tx.legacyTxid P = P.blake3 (hashPreimage Domain.tx (tx.legacyParts P)) := rfl

/-- Only the part of an output is longer than 32 bytes. -/
theorem legacyParts_lengths (P : Primitives) (tx : Transaction) :
    (∀ part ∈ ((tx.inputs.map Input.commit).insertionSort (· ≤ ·)).map Bytes32.toBytes ++
        (tx.kernels.map fun kernel => kernel.signingMessage P),
      decide (32 < part.length) = false) ∧
      ∀ part ∈ tx.outputs.map Output.commitmentBytes, decide (32 < part.length) = true := by
  constructor
  · intro part member
    rcases List.mem_append.mp member with member | member
    · obtain ⟨commit, _, rfl⟩ := List.mem_map.mp member
      simp
    · obtain ⟨kernel, _, rfl⟩ := List.mem_map.mp member
      simp [TxKernel.signingMessage]
  · intro part member
    obtain ⟨output, _, rfl⟩ := List.mem_map.mp member
    simp only [Output.commitmentBytes, List.length_cons, List.length_append,
      Bytes32.length_toBytes, decide_eq_true_eq]
    omega

/-- Transactions with outputs that share this id spend the same outputs. -/
theorem inputs_perm_of_legacyTxid (heldFramed : Framed (held.legacyParts P))
    (txFramed : Framed (tx.legacyParts P))
    (collisionFree : P.CollisionFreeOn [hashPreimage Domain.tx (held.legacyParts P),
      hashPreimage Domain.tx (tx.legacyParts P)])
    (heldOutputs : held.outputs ≠ []) (txOutputs : tx.outputs ≠ [])
    (same : held.legacyTxid P = tx.legacyTxid P) :
    (held.inputs.map Input.commit).Perm (tx.inputs.map Input.commit) := by
  rw [legacyTxid_eq, legacyTxid_eq] at same
  have parts : held.legacyParts P = tx.legacyParts P :=
    parts_eq_of_hashPreimage_eq heldFramed txFramed
      (collisionFree _ (by simp) _ (by simp) same)
  have sections := sections_eq (fun part : Bytes => decide (32 < part.length)) parts
    (legacyParts_lengths P held).1 (legacyParts_lengths P tx).1 (legacyParts_lengths P held).2
    (legacyParts_lengths P tx).2 (by simpa using heldOutputs) (by simpa using txOutputs)
  have sorted := Bytes32.toBytes_injective.list_map sections.1
  have last := List.perm_insertionSort (· ≤ ·) (tx.inputs.map Input.commit)
  rw [← sorted] at last
  exact (List.perm_insertionSort _ _).symm.trans last

end Transaction

namespace Mempool

variable {P : Primitives} {pool : Mempool}

/-- The insertion gives the place of the held transaction to the new one. -/
structure Replaces (P : Primitives) (pool : Mempool) (tx : Transaction) (nowUnix : UInt64)
    (id : Bytes) (held : Transaction) : Prop where
  before : (pool.makeRoom nowUnix).txs[id]? = some held
  after : id ∉ (pool.insertChecked P tx nowUnix).2.txs

/-- What a replacement is. -/
theorem Replaces.spec (ok : pool.Consistent P) {tx held : Transaction} {nowUnix : UInt64}
    {id : Bytes} (replaces : pool.Replaces P tx nowUnix id held) :
    (held.hasFullBinding = false ∧ tx.hasFullBinding = true) ∧
      held.legacyTxid P = tx.legacyTxid P ∧
      (pool.insertChecked P tx nowUnix).2.txs[(tx.txid P).toHex]? = some tx ∧
      ∃ first, pool.seen[id]? = some first ∧
        (pool.insertChecked P tx nowUnix).2.seen[(tx.txid P).toHex]? = some first := by
  have swept := ok.makeRoom nowUnix
  obtain ⟨before, after⟩ := replaces
  have present : id ∈ (pool.makeRoom nowUnix).txs :=
    ExtTreeMap.mem_iff_isSome_getElem?.mpr (Option.isSome_of_eq_some before)
  rcases pool.insertChecked_cases (P := P) tx nowUnix with
    same | ⟨_, _, _, added⟩ | ⟨conflict, other, _, _, _, found, upgrade, replaced⟩
  · rw [same] at after
    exact absurd present after
  · rw [added] at after
    exact absurd (ExtTreeMap.mem_insert.mpr (.inr present)) after
  · rw [replaced] at after ⊢
    have here : id = conflict := by
      by_contra differs
      refine after (ExtTreeMap.mem_insert.mpr (.inr (ExtTreeMap.mem_erase.mpr ⟨?_, present⟩)))
      simpa using Ne.symm differs
    subst here
    obtain rfl := Option.some.inj (before.symm.trans found)
    obtain ⟨first, dated⟩ := Option.isSome_iff_exists.mp
      (ExtTreeMap.mem_iff_isSome_getElem?.mp ((swept.keys id).mp present))
    simp only [isUpgrade, Bool.and_eq_true, Bool.not_eq_true', beq_iff_eq] at upgrade
    refine ⟨upgrade.1, upgrade.2, by simp [withEntry], first, ?_, by simp [withEntry, dated]⟩
    rw [← (makeRoom_spec before).2, dated]

/-- The pool is consistent after every sequence of calls, and a transaction that takes the
place of another one keeps its id without binding fields and the time at which it was first
seen and, where both have outputs, spends the same outputs. -/
theorem consistent_of_run (P : Primitives) (calls : List Call) :
    (calls.foldl (step P) empty).Consistent P ∧
      ∀ tx held nowUnix id, (calls.foldl (step P) empty).Replaces P tx nowUnix id held →
        (held.hasFullBinding = false ∧ tx.hasFullBinding = true) ∧
        held.legacyTxid P = tx.legacyTxid P ∧
        ((calls.foldl (step P) empty).insertChecked P tx nowUnix).2.txs[(tx.txid P).toHex]? =
          some tx ∧
        (∃ first, (calls.foldl (step P) empty).seen[id]? = some first ∧
          ((calls.foldl (step P) empty).insertChecked P tx nowUnix).2.seen[
            (tx.txid P).toHex]? = some first) ∧
        (held.outputs ≠ [] → tx.outputs ≠ [] →
          Framed (held.legacyParts P) → Framed (tx.legacyParts P) →
          P.CollisionFreeOn [hashPreimage Domain.tx (held.legacyParts P),
            hashPreimage Domain.tx (tx.legacyParts P)] →
          (held.inputs.map Input.commit).Perm (tx.inputs.map Input.commit)) := by
  have ok := consistent_run P calls
  refine ⟨ok, ?_⟩
  intro tx held nowUnix id replaces
  obtain ⟨bindings, legacy, taken, dated⟩ := replaces.spec ok
  refine ⟨bindings, legacy, taken, dated, ?_⟩
  intro heldOutputs txOutputs heldFramed txFramed collisionFree
  exact Transaction.inputs_perm_of_legacyTxid heldFramed txFramed collisionFree heldOutputs
    txOutputs legacy

end Mempool

namespace Sample

/-- A kernel with binding fields. -/
def boundKernel : TxKernel :=
  { kernelOf .plain 0 0 1 with stealthExcess := some 0, stealthSig := some ⟨0, 0⟩ }

/-- No output and no kernel, and a second input that reads like the kernel. -/
def twoInputs : Transaction where
  version := 2
  inputs := [inputOf 0, inputOf (hashMulti primitives Domain.kernel boundKernel.signingParts)]
  outputs := []
  kernels := []
  stealthOffset := none
  kernelOffset := none

/-- The first of the inputs and the kernel, with binding fields. -/
def oneInput : Transaction where
  version := 2
  inputs := [{ inputOf 0 with inputKey := some 0, keySig := some ⟨0, 0⟩ }]
  outputs := []
  kernels := [boundKernel]
  stealthOffset := none
  kernelOffset := none

/-- Without outputs, a transaction takes the place of one that spends more. -/
theorem replacement_loses_input :
    (twoInputs.inputs ≠ [] ∧ oneInput.inputs ≠ []) ∧
      ([.insertChecked twoInputs 5].foldl (Mempool.step primitives) .empty).Replaces primitives
        oneInput 7 (twoInputs.txid primitives).toHex twoInputs ∧
      ¬(twoInputs.inputs.map Input.commit).Perm (oneInput.inputs.map Input.commit) := by
  have ran : (([.insertChecked twoInputs 5].foldl (Mempool.step primitives) .empty).makeRoom
        7).txs[(twoInputs.txid primitives).toHex]? = some twoInputs ∧
      (([.insertChecked twoInputs 5].foldl (Mempool.step primitives) .empty).insertChecked
        primitives oneInput 7).2.txs.contains (twoInputs.txid primitives).toHex = false := by
    decide +kernel
  refine ⟨by simp [twoInputs, oneInput], ⟨ran.1, ?_⟩, fun perm => ?_⟩
  · intro member
    rw [ExtTreeMap.mem_iff_contains, ran.2] at member
    cases member
  · have length := perm.length_eq
    simp [twoInputs, oneInput] at length

end Sample

end Nightfall
