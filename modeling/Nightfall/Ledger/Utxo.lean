import Nightfall.Library.KeySum
import Nightfall.Crypto

/-!
# The UTXO commitment set and the supply counters

The set carries a running sum of its commitment points, a count of undecodable
commitments and a count of the entries the sum covers.  `UtxoSet.Tracks` says
that all three describe the entries; `insert` and `remove` keep it, and a set
that satisfies it is determined by its entries.
-/

namespace Nightfall

open Std KeySum

variable (P : Primitives)

/-- An unspent output as the chain remembers it. -/
structure UtxoEntry where
  outputPk : Bytes32
  height : UInt64
  isCoinbase : Bool
  deriving DecidableEq

/-- Blocks that must pass before a coinbase output can be spent. -/
def coinbaseMaturityMainnet : UInt64 := 1440

def coinbaseMaturity : NetworkId → UInt64
  | .mainnet => coinbaseMaturityMainnet
  | .testnet => 60
  | .devnet => 10

structure UtxoSet where
  /-- Sorted by commitment. -/
  entries : ExtTreeMap Bytes32 UtxoEntry compare
  /-- Running sum of every entry's commitment point. -/
  sum : P.Point
  /-- Entries whose commitment does not decompress. -/
  malformed : Nat
  /-- How many entries the running sum accounts for. -/
  summed : Nat
  deriving DecidableEq

variable {P}

namespace UtxoSet

def empty : UtxoSet P := ⟨∅, 0, 0, 0⟩

def get (utxos : UtxoSet P) (commit : Commitment) : Option UtxoEntry :=
  utxos.entries[commit]?

def contains (utxos : UtxoSet P) (commit : Commitment) : Bool :=
  utxos.entries.contains commit

/-- Only a genuinely new commitment moves the sum. -/
def insert (utxos : UtxoSet P) (commit : Commitment) (entry : UtxoEntry) : UtxoSet P :=
  let entries := utxos.entries.insert commit entry
  if utxos.contains commit then { utxos with entries }
  else
    match Commitment.point P commit with
    | some point =>
        { utxos with entries, summed := utxos.summed + 1, sum := utxos.sum + point }
    | none =>
        { utxos with entries, summed := utxos.summed + 1, malformed := utxos.malformed + 1 }

/-- The counters subtract with saturation, which is subtraction on `Nat`. -/
def remove (utxos : UtxoSet P) (commit : Commitment) : UtxoSet P :=
  let entries := utxos.entries.erase commit
  if utxos.contains commit then
    match Commitment.point P commit with
    | some point =>
        { utxos with entries, summed := utxos.summed - 1, sum := utxos.sum - point }
    | none =>
        { utxos with entries, summed := utxos.summed - 1, malformed := utxos.malformed - 1 }
  else { utxos with entries }

/-- The definition of the sum: walk the map, decompressing as it goes. -/
def commitmentSumByWalking (utxos : UtxoSet P) : Option P.Point :=
  utxos.entries.keys.foldlM
    (fun total commit => (Commitment.point P commit).map (total + ·)) 0

/-- Sum of all unspent commitments. -/
def commitmentSum (utxos : UtxoSet P) : Option P.Point :=
  if utxos.summed ≠ utxos.entries.size then utxos.commitmentSumByWalking
  else if utxos.malformed > 0 then none
  else some utxos.sum

/-- Running sum after removing `remove` and adding `add`, without mutating. -/
def sumAfter (utxos : UtxoSet P) (remove add : List Commitment) : Option P.Point := do
  let sum ← utxos.commitmentSum
  let sum ← remove.foldlM (fun total commit => (Commitment.point P commit).map (total - ·)) sum
  add.foldlM (fun total commit => (Commitment.point P commit).map (total + ·)) sum

/-- Bring the running sum up to date with the entries. -/
def rebuildSum (utxos : UtxoSet P) : UtxoSet P :=
  { utxos with
    sum := (utxos.entries.keys.filterMap (Commitment.point P)).sum
    malformed := utxos.entries.keys.countP fun commit => (Commitment.point P commit).isNone
    summed := utxos.entries.size }

variable (P) in
/-- One level of the Merkle tree; an odd last node is paired with itself. -/
def merkleLevel : List Hash256 → List Hash256
  | left :: right :: rest =>
      hashMulti P Domain.merkle [left.toBytes, right.toBytes] :: merkleLevel rest
  | [last] => [hashMulti P Domain.merkle [last.toBytes, last.toBytes]]
  | [] => []

variable (P) in
/-- Repeat `merkleLevel` until one node is left.  The bound is the number of
nodes, which every round at least halves. -/
def merkleRoot : Nat → List Hash256 → Hash256
  | _, [] => 0
  | _, [root] => root
  | 0, root :: _ => root
  | bound + 1, level => merkleRoot bound (merkleLevel P level)

/-- Merkle root over the sorted commitment set. -/
def root (utxos : UtxoSet P) : Hash256 :=
  let leaves := utxos.entries.toList.map fun (commit, entry) =>
    hashMulti P Domain.merkleLeaf
      [commit.toBytes, entry.outputPk.toBytes, u64LeBytes entry.height]
  merkleRoot P leaves.length leaves

/-! ## Lookups -/

@[simp] theorem get_empty (commit : Commitment) :
    (empty : UtxoSet P).get commit = none := by
  simp [get, empty]

@[simp] theorem contains_eq_isSome (utxos : UtxoSet P) (commit : Commitment) :
    utxos.contains commit = (utxos.get commit).isSome := by
  unfold contains get
  rw [ExtTreeMap.contains_eq_isSome_getElem?]

@[simp] theorem entries_insert (utxos : UtxoSet P) (commit : Commitment)
    (entry : UtxoEntry) :
    (utxos.insert commit entry).entries = utxos.entries.insert commit entry := by
  unfold insert
  split
  · rfl
  · split <;> rfl

@[simp] theorem entries_remove (utxos : UtxoSet P) (commit : Commitment) :
    (utxos.remove commit).entries = utxos.entries.erase commit := by
  unfold remove
  split
  · split <;> rfl
  · rfl

theorem get_insert (utxos : UtxoSet P) (commit other : Commitment)
    (entry : UtxoEntry) :
    (utxos.insert commit entry).get other =
      if other = commit then some entry else utxos.get other := by
  simp [get, ExtTreeMap.getElem?_insert, eq_comm (a := other)]

theorem get_remove (utxos : UtxoSet P) (commit other : Commitment) :
    (utxos.remove commit).get other =
      if other = commit then none else utxos.get other := by
  simp [get, ExtTreeMap.getElem?_erase, eq_comm (a := other)]

/-- Entries are determined by lookups. -/
theorem entries_ext {left right : UtxoSet P}
    (equal : ∀ commit, left.get commit = right.get commit) :
    left.entries = right.entries :=
  ExtTreeMap.ext_getElem? equal

/-! ## The running sum describes the entries -/

variable (P) in
/-- One for an invalid encoding, zero for a valid one. -/
def invalidCount (commit : Commitment) : Nat :=
  if (Commitment.point P commit).isNone then 1 else 0

/-- The cached values describe the entries. -/
structure Tracks (utxos : UtxoSet P) : Prop where
  sum_eq : utxos.sum = keySum (Commitment.pointOrZero P) utxos.entries
  malformed_eq : utxos.malformed = keySum (invalidCount P) utxos.entries
  summed_eq : utxos.summed = utxos.entries.size

theorem tracks_empty : (empty : UtxoSet P).Tracks :=
  ⟨by simp [empty], by simp [empty], by simp [empty]⟩

/-- The entries determine a set whose cached values are right. -/
theorem Tracks.ext {left right : UtxoSet P} (leftTracks : left.Tracks)
    (rightTracks : right.Tracks) (equal : left.entries = right.entries) :
    left = right := by
  obtain ⟨leftEntries, leftSum, leftMalformed, leftSummed⟩ := left
  obtain ⟨rightEntries, rightSum, rightMalformed, rightSummed⟩ := right
  simp only at equal
  subst equal
  have sums := leftTracks.sum_eq.trans rightTracks.sum_eq.symm
  have malformed := leftTracks.malformed_eq.trans rightTracks.malformed_eq.symm
  have summed := leftTracks.summed_eq.trans rightTracks.summed_eq.symm
  simp only at sums malformed summed
  rw [sums, malformed, summed]

theorem notMem_of_get_eq_none {utxos : UtxoSet P} {commit : Commitment}
    (absent : utxos.get commit = none) : commit ∉ utxos.entries := by
  simpa [get] using absent

theorem mem_of_get_eq_some {utxos : UtxoSet P} {commit : Commitment}
    {entry : UtxoEntry} (present : utxos.get commit = some entry) :
    commit ∈ utxos.entries := by
  rw [ExtTreeMap.mem_iff_isSome_getElem?]
  exact Option.isSome_of_eq_some present

/-- Insertion keeps the cached values right, whether or not the key is new. -/
theorem Tracks.insert {utxos : UtxoSet P} (tracks : utxos.Tracks)
    (commit : Commitment) (entry : UtxoEntry) : (utxos.insert commit entry).Tracks := by
  cases present : utxos.get commit with
  | some old =>
      have member := mem_of_get_eq_some present
      have step : utxos.insert commit entry =
          { utxos with entries := utxos.entries.insert commit entry } := by
        simp [UtxoSet.insert, present]
      rw [step]
      refine ⟨?_, ?_, ?_⟩
      · rw [keySum_insert_of_mem _ _ member]
        exact tracks.sum_eq
      · rw [keySum_insert_of_mem _ _ member]
        exact tracks.malformed_eq
      · simpa [ExtTreeMap.size_insert, member] using tracks.summed_eq
  | none =>
      have absent := notMem_of_get_eq_none present
      have size : (utxos.entries.insert commit entry).size = utxos.entries.size + 1 := by
        simp [ExtTreeMap.size_insert, absent]
      cases decoded : Commitment.point P commit with
      | some point =>
          have step : utxos.insert commit entry =
              { utxos with
                entries := utxos.entries.insert commit entry
                summed := utxos.summed + 1
                sum := utxos.sum + point } := by
            simp [UtxoSet.insert, present, decoded]
          rw [step]
          refine ⟨?_, ?_, ?_⟩
          · simp [keySum_insert _ _ absent, Commitment.pointOrZero, decoded, tracks.sum_eq, add_comm]
          · simp [keySum_insert _ _ absent, invalidCount, decoded, tracks.malformed_eq]
          · simp [size, tracks.summed_eq]
      | none =>
          have step : utxos.insert commit entry =
              { utxos with
                entries := utxos.entries.insert commit entry
                summed := utxos.summed + 1
                malformed := utxos.malformed + 1 } := by
            simp [UtxoSet.insert, present, decoded]
          rw [step]
          refine ⟨?_, ?_, ?_⟩
          · simp [keySum_insert _ _ absent, Commitment.pointOrZero, decoded, tracks.sum_eq]
          · simp [keySum_insert _ _ absent, invalidCount, decoded, tracks.malformed_eq,
              add_comm]
          · simp [size, tracks.summed_eq]

/-- Removal keeps the cached values right, whether or not the key is there. -/
theorem Tracks.remove {utxos : UtxoSet P} (tracks : utxos.Tracks)
    (commit : Commitment) : (utxos.remove commit).Tracks := by
  cases present : utxos.get commit with
  | none =>
      have absent := notMem_of_get_eq_none present
      have same : utxos.entries.erase commit = utxos.entries := by
        apply ExtTreeMap.ext_getElem?
        intro other
        rw [ExtTreeMap.getElem?_erase]
        split
        next equal =>
            rw [LawfulEqOrd.eq_of_compare equal] at present
            exact present.symm
        next different => rfl
      have step : utxos.remove commit = utxos := by
        simp [UtxoSet.remove, present, same]
      rw [step]
      exact tracks
  | some old =>
      have member := mem_of_get_eq_some present
      have size : (utxos.entries.erase commit).size = utxos.entries.size - 1 := by
        simp [ExtTreeMap.size_erase, member]
      have points := keySum_erase (Commitment.pointOrZero P) member
      have invalid := keySum_erase (invalidCount P) member
      cases decoded : Commitment.point P commit with
      | some point =>
          have step : utxos.remove commit =
              { utxos with
                entries := utxos.entries.erase commit
                summed := utxos.summed - 1
                sum := utxos.sum - point } := by
            simp [UtxoSet.remove, present, decoded]
          rw [step]
          refine ⟨?_, ?_, ?_⟩
          · simp [tracks.sum_eq, points, Commitment.pointOrZero, decoded]
          · simp [tracks.malformed_eq, invalid, invalidCount, decoded]
          · simp [size, tracks.summed_eq]
      | none =>
          have step : utxos.remove commit =
              { utxos with
                entries := utxos.entries.erase commit
                summed := utxos.summed - 1
                malformed := utxos.malformed - 1 } := by
            simp [UtxoSet.remove, present, decoded]
          rw [step]
          refine ⟨?_, ?_, ?_⟩
          · simp [tracks.sum_eq, points, Commitment.pointOrZero, decoded]
          · simp [tracks.malformed_eq, invalid, invalidCount, decoded]
          · simp [size, tracks.summed_eq]

/-! ## Whole lists of changes -/

/-- Remove every commitment of a list, in order. -/
def removeAll (utxos : UtxoSet P) (commits : List Commitment) : UtxoSet P :=
  commits.foldl remove utxos

/-- Insert every entry of a list, in order. -/
def insertAll (utxos : UtxoSet P) (added : List (Commitment × UtxoEntry)) : UtxoSet P :=
  added.foldl (fun set (commit, entry) => set.insert commit entry) utxos

@[simp] theorem removeAll_nil (utxos : UtxoSet P) : utxos.removeAll [] = utxos := rfl

@[simp] theorem removeAll_cons (utxos : UtxoSet P) (commit : Commitment)
    (rest : List Commitment) :
    utxos.removeAll (commit :: rest) = (utxos.remove commit).removeAll rest := rfl

@[simp] theorem insertAll_nil (utxos : UtxoSet P) : utxos.insertAll [] = utxos := rfl

@[simp] theorem insertAll_cons (utxos : UtxoSet P) (commit : Commitment)
    (entry : UtxoEntry) (rest : List (Commitment × UtxoEntry)) :
    utxos.insertAll ((commit, entry) :: rest) =
      (utxos.insert commit entry).insertAll rest := rfl

theorem Tracks.removeAll {utxos : UtxoSet P} (tracks : utxos.Tracks)
    (commits : List Commitment) : (utxos.removeAll commits).Tracks := by
  induction commits generalizing utxos with
  | nil => exact tracks
  | cons commit rest ih => exact ih (tracks.remove commit)

theorem Tracks.insertAll {utxos : UtxoSet P} (tracks : utxos.Tracks)
    (added : List (Commitment × UtxoEntry)) : (utxos.insertAll added).Tracks := by
  induction added generalizing utxos with
  | nil => exact tracks
  | cons change rest ih => exact ih (tracks.insert change.1 change.2)

/-- Removed commitments are gone, the others are untouched. -/
theorem get_removeAll (utxos : UtxoSet P) (commits : List Commitment)
    (other : Commitment) :
    (utxos.removeAll commits).get other =
      if other ∈ commits then none else utxos.get other := by
  induction commits generalizing utxos with
  | nil => simp
  | cons commit rest ih =>
      rw [removeAll_cons, ih, get_remove]
      by_cases inRest : other ∈ rest
      · simp [inRest]
      · by_cases isHead : other = commit
        · simp [isHead]
        · simp [inRest, isHead]

theorem get_insertAll_of_notMem (utxos : UtxoSet P)
    {added : List (Commitment × UtxoEntry)} {other : Commitment}
    (untouched : other ∉ added.map Prod.fst) :
    (utxos.insertAll added).get other = utxos.get other := by
  induction added generalizing utxos with
  | nil => rfl
  | cons change rest ih =>
      obtain ⟨commit, entry⟩ := change
      simp only [List.map_cons, List.mem_cons, not_or] at untouched
      rw [insertAll_cons, ih _ untouched.2, get_insert, if_neg untouched.1]

/-- With distinct keys, each inserted entry is found. -/
theorem get_insertAll_of_mem (utxos : UtxoSet P)
    {added : List (Commitment × UtxoEntry)} {commit : Commitment} {entry : UtxoEntry}
    (nodup : (added.map Prod.fst).Nodup) (member : (commit, entry) ∈ added) :
    (utxos.insertAll added).get commit = some entry := by
  induction added generalizing utxos with
  | nil => contradiction
  | cons change rest ih =>
      obtain ⟨headCommit, headEntry⟩ := change
      simp only [List.map_cons, List.nodup_cons] at nodup
      rcases List.mem_cons.mp member with isHead | inRest
      · obtain ⟨rfl, rfl⟩ := Prod.mk.inj isHead
        rw [insertAll_cons, get_insertAll_of_notMem _ nodup.1, get_insert, if_pos rfl]
      · rw [insertAll_cons]
        exact ih _ nodup.2 inRest

/-- Every commitment ever inserted is there afterwards. -/
theorem isSome_get_insertAll_of_mem (utxos : UtxoSet P)
    {added : List (Commitment × UtxoEntry)} {commit : Commitment}
    (member : commit ∈ added.map Prod.fst) :
    ((utxos.insertAll added).get commit).isSome := by
  induction added generalizing utxos with
  | nil => contradiction
  | cons change rest ih =>
      obtain ⟨headCommit, headEntry⟩ := change
      rw [insertAll_cons]
      by_cases inRest : commit ∈ rest.map Prod.fst
      · exact ih _ inRest
      · rw [get_insertAll_of_notMem _ inRest, get_insert]
        have isHead : commit = headCommit := by
          simpa [inRest] using member
        simp [isHead]

/-! ## The running sum after a list of changes -/

/-- A set with valid cached values states its sum unless an entry is malformed. -/
theorem Tracks.commitmentSum_eq {utxos : UtxoSet P} (tracks : utxos.Tracks) :
    utxos.commitmentSum = if utxos.malformed > 0 then none else some utxos.sum := by
  simp [commitmentSum, tracks.summed_eq]

/-- Nothing in the set is malformed. -/
def WellEncoded (utxos : UtxoSet P) : Prop :=
  ∀ commit entry, utxos.get commit = some entry → (Commitment.point P commit).isSome

theorem wellEncoded_empty : (empty : UtxoSet P).WellEncoded := by
  intro commit entry present
  simp at present

theorem Tracks.malformed_eq_zero {utxos : UtxoSet P} (tracks : utxos.Tracks) :
    utxos.malformed = 0 ↔ utxos.WellEncoded := by
  rw [tracks.malformed_eq]
  unfold keySum
  rw [List.sum_eq_zero_iff]
  constructor
  · intro zero commit entry present
    have member := mem_of_get_eq_some present
    have counted := zero (invalidCount P commit)
      (List.mem_map_of_mem (ExtTreeMap.mem_keys.mpr member))
    by_contra undecodable
    simp_all [invalidCount]
  · intro encoded count member
    obtain ⟨commit, inKeys, rfl⟩ := List.mem_map.mp member
    have present : ((utxos.get commit).isSome) := by
      rw [← contains_eq_isSome]
      exact ExtTreeMap.mem_iff_contains.mp (ExtTreeMap.mem_keys.mp inKeys)
    obtain ⟨entry, found⟩ := Option.isSome_iff_exists.mp present
    have decodes := encoded commit entry found
    rw [Option.isSome_iff_ne_none] at decodes
    simp [invalidCount, decodes]

theorem Tracks.commitmentSum_of_wellEncoded {utxos : UtxoSet P} (tracks : utxos.Tracks)
    (encoded : utxos.WellEncoded) : utxos.commitmentSum = some utxos.sum := by
  simp [tracks.commitmentSum_eq, tracks.malformed_eq_zero.mpr encoded]

theorem WellEncoded.of_commitmentSum {utxos : UtxoSet P} (tracks : utxos.Tracks)
    {total : P.Point} (stated : utxos.commitmentSum = some total) :
    utxos.WellEncoded ∧ total = utxos.sum := by
  rw [tracks.commitmentSum_eq] at stated
  split at stated
  next => contradiction
  next none_bad =>
      exact ⟨tracks.malformed_eq_zero.mp (by omega), (Option.some.inj stated).symm⟩

theorem WellEncoded.removeAll {utxos : UtxoSet P} (encoded : utxos.WellEncoded)
    (commits : List Commitment) : (utxos.removeAll commits).WellEncoded := by
  intro commit entry present
  rw [get_removeAll] at present
  split at present
  · contradiction
  · exact encoded commit entry present

theorem WellEncoded.insertAll {utxos : UtxoSet P} (encoded : utxos.WellEncoded)
    {added : List (Commitment × UtxoEntry)}
    (decodes : ∀ commit ∈ added.map Prod.fst, (Commitment.point P commit).isSome) :
    (utxos.insertAll added).WellEncoded := by
  intro commit entry present
  by_cases isNew : commit ∈ added.map Prod.fst
  · exact decodes commit isNew
  · rw [get_insertAll_of_notMem _ isNew] at present
    exact encoded commit entry present

/-- Removing distinct present commitments subtracts their points. -/
theorem sum_removeAll (utxos : UtxoSet P) {commits : List Commitment} {total : P.Point}
    (nodup : commits.Nodup) (present : ∀ commit ∈ commits, (utxos.get commit).isSome)
    (decoded : Commitment.sum P commits = some total) :
    (utxos.removeAll commits).sum = utxos.sum - total := by
  induction commits generalizing utxos total with
  | nil =>
      obtain rfl : (0 : P.Point) = total := by simpa [Commitment.sum] using decoded
      simp
  | cons commit rest ih =>
      simp only [Commitment.sum, Option.bind_eq_bind, Option.bind_eq_some_iff,
        Option.some.injEq] at decoded
      obtain ⟨head, headDecoded, tail, tailDecoded, rfl⟩ := decoded
      have here : (utxos.get commit).isSome := present commit List.mem_cons_self
      have step : (utxos.remove commit).sum = utxos.sum - head := by
        simp [remove, here, headDecoded]
      have stillThere : ∀ other ∈ rest, ((utxos.remove commit).get other).isSome := by
        intro other inRest
        have different : other ≠ commit := by
          rintro rfl
          exact (List.nodup_cons.mp nodup).1 inRest
        rw [get_remove, if_neg different]
        exact present other (List.mem_cons_of_mem _ inRest)
      rw [removeAll_cons, ih _ (List.nodup_cons.mp nodup).2 stillThere tailDecoded, step]
      abel

/-- Inserting distinct fresh commitments adds their points. -/
theorem sum_insertAll (utxos : UtxoSet P) {added : List (Commitment × UtxoEntry)}
    {total : P.Point} (nodup : (added.map Prod.fst).Nodup)
    (fresh : ∀ commit ∈ added.map Prod.fst, utxos.get commit = none)
    (decoded : Commitment.sum P (added.map Prod.fst) = some total) :
    (utxos.insertAll added).sum = utxos.sum + total := by
  induction added generalizing utxos total with
  | nil =>
      obtain rfl : (0 : P.Point) = total := by simpa [Commitment.sum] using decoded
      simp
  | cons change rest ih =>
      obtain ⟨commit, entry⟩ := change
      simp only [List.map_cons, Commitment.sum, Option.bind_eq_bind,
        Option.bind_eq_some_iff, Option.some.injEq] at decoded
      obtain ⟨head, headDecoded, tail, tailDecoded, rfl⟩ := decoded
      simp only [List.map_cons, List.nodup_cons] at nodup
      have isNew : utxos.get commit = none := fresh commit (by simp)
      have step : (utxos.insert commit entry).sum = utxos.sum + head := by
        simp [insert, isNew, headDecoded]
      have stillFresh : ∀ other ∈ rest.map Prod.fst,
          (utxos.insert commit entry).get other = none := by
        intro other inRest
        have different : other ≠ commit := by
          rintro rfl
          exact nodup.1 inRest
        rw [get_insert, if_neg different]
        exact fresh other (List.mem_cons_of_mem _ inRest)
      rw [insertAll_cons, ih _ nodup.2 stillFresh tailDecoded, step]
      abel

theorem foldlM_sub_eq_some {commits : List Commitment} {start total : P.Point} :
    commits.foldlM (fun total commit => (Commitment.point P commit).map (total - ·)) start =
        some total ↔
      ∃ points, Commitment.sum P commits = some points ∧ total = start - points := by
  induction commits generalizing start total with
  | nil => simp [Commitment.sum, eq_comm]
  | cons commit rest ih =>
      simp only [List.foldlM_cons, Commitment.sum, Option.bind_eq_bind]
      cases Commitment.point P commit with
      | none => simp
      | some head =>
          simp only [Option.map_some, Option.bind_some, ih]
          cases Commitment.sum P rest with
          | none => simp
          | some tail => simp [sub_sub]

theorem foldlM_add_eq_some {commits : List Commitment} {start total : P.Point} :
    commits.foldlM (fun total commit => (Commitment.point P commit).map (total + ·)) start =
        some total ↔
      ∃ points, Commitment.sum P commits = some points ∧ total = start + points := by
  induction commits generalizing start total with
  | nil => simp [Commitment.sum, eq_comm]
  | cons commit rest ih =>
      simp only [List.foldlM_cons, Commitment.sum, Option.bind_eq_bind]
      cases Commitment.point P commit with
      | none => simp
      | some head =>
          simp only [Option.map_some, Option.bind_some, ih]
          cases Commitment.sum P rest with
          | none => simp
          | some tail => simp [add_assoc]

/-- What a successful projection says about the set and the two lists. -/
theorem sumAfter_eq_some {utxos : UtxoSet P} {removed added : List Commitment}
    {projected : P.Point} :
    utxos.sumAfter removed added = some projected ↔
      ∃ total spent created, utxos.commitmentSum = some total ∧
        Commitment.sum P removed = some spent ∧ Commitment.sum P added = some created ∧
        projected = total - spent + created := by
  simp only [sumAfter, Option.bind_eq_bind, Option.bind_eq_some_iff, foldlM_sub_eq_some,
    foldlM_add_eq_some]
  constructor
  · rintro ⟨total, stated, _, ⟨spent, removedSum, rfl⟩, created, addedSum, rfl⟩
    exact ⟨total, spent, created, stated, removedSum, addedSum, rfl⟩
  · rintro ⟨total, spent, created, stated, removedSum, addedSum, rfl⟩
    exact ⟨total, stated, _, ⟨spent, removedSum, rfl⟩, created, addedSum, rfl⟩

end UtxoSet

/-! ## Kernel accumulator and supply counters -/

/-- Running total of every kernel excess ever accepted. -/
structure KernelAccumulator where
  /-- Compressed running sum. -/
  sum : Commitment
  count : UInt64
  deriving DecidableEq

variable (P)

namespace KernelAccumulator

def initial : KernelAccumulator := ⟨Commitment.identity P, 0⟩

def add (kernels : KernelAccumulator) (excess : Commitment) :
    Option KernelAccumulator := do
  let total ← Commitment.point P kernels.sum
  let point ← Commitment.point P excess
  some ⟨Commitment.fromPoint P (total + point), kernels.count + 1⟩

/-- Fold a block's `k·H` kernel offset into the sum without counting it. -/
def addOffset (kernels : KernelAccumulator) (offset : P.Point) :
    Option KernelAccumulator :=
  if offset = 0 then some kernels
  else do
    let total ← Commitment.point P kernels.sum
    some { kernels with sum := Commitment.fromPoint P (total + offset) }

def point (kernels : KernelAccumulator) : Option P.Point :=
  Commitment.point P kernels.sum

/-- Add every excess of a list, in order. -/
def addAll (kernels : KernelAccumulator) (excesses : List Commitment) :
    Option KernelAccumulator :=
  excesses.foldlM (add P) kernels

variable {P}

@[simp] theorem point_initial : (initial P).point P = some 0 := by
  simp [point, initial]

@[simp] theorem point_fromPoint (total : P.Point) (count : UInt64) :
    point P ⟨Commitment.fromPoint P total, count⟩ = some total := by
  simp [point]

/-- Adding excesses adds their points to the total. -/
theorem point_addAll {kernels after : KernelAccumulator} {excesses : List Commitment}
    {total : P.Point} (start : kernels.point P = some total)
    (added : kernels.addAll P excesses = some after) :
    ∃ points, Commitment.sum P excesses = some points ∧
      after.point P = some (total + points) := by
  induction excesses generalizing kernels total with
  | nil =>
      obtain rfl : kernels = after := by simpa [addAll] using added
      exact ⟨0, rfl, by simpa using start⟩
  | cons excess rest ih =>
      simp only [addAll, List.foldlM_cons, Option.bind_eq_bind,
        Option.bind_eq_some_iff] at added
      obtain ⟨next, headAdded, restAdded⟩ := added
      simp only [add, Option.bind_eq_bind, Option.bind_eq_some_iff,
        Option.some.injEq] at headAdded
      obtain ⟨current, currentDecoded, head, headDecoded, rfl⟩ := headAdded
      obtain rfl : total = current := by
        rw [point] at start
        exact Option.some.inj (start.symm.trans currentDecoded)
      obtain ⟨points, restSum, final⟩ := ih (point_fromPoint _ _) restAdded
      refine ⟨head + points, ?_, ?_⟩
      · simp [Commitment.sum, headDecoded, restSum]
      · rw [final, add_assoc]

/-- Decodable excesses can always be added. -/
theorem addAll_isSome {kernels : KernelAccumulator} {excesses : List Commitment}
    {total points : P.Point} (start : kernels.point P = some total)
    (decoded : Commitment.sum P excesses = some points) :
    ∃ after, kernels.addAll P excesses = some after := by
  induction excesses generalizing kernels total points with
  | nil => exact ⟨kernels, rfl⟩
  | cons excess rest ih =>
      simp only [Commitment.sum, Option.bind_eq_bind, Option.bind_eq_some_iff,
        Option.some.injEq] at decoded
      obtain ⟨head, headDecoded, tail, tailDecoded, rfl⟩ := decoded
      have decodesNow : Commitment.point P kernels.sum = some total := start
      obtain ⟨after, added⟩ :=
        ih (point_fromPoint (total + head) (kernels.count + 1)) tailDecoded
      refine ⟨after, ?_⟩
      simp only [addAll] at added
      simp [addAll, add, decodesNow, headDecoded, added]

theorem point_addOffset {kernels after : KernelAccumulator} {offset total : P.Point}
    (start : kernels.point P = some total)
    (added : kernels.addOffset P offset = some after) :
    after.point P = some (total + offset) := by
  unfold addOffset at added
  split at added
  next zero =>
      obtain rfl := Option.some.inj added
      simpa [zero] using start
  next nonzero =>
      have decodesNow : Commitment.point P kernels.sum = some total := start
      simp only [decodesNow, Option.bind_eq_bind, Option.bind_some, Option.some.injEq] at added
      obtain rfl := added
      simp [point]

theorem addOffset_isSome {kernels : KernelAccumulator} {total : P.Point}
    (start : kernels.point P = some total) (offset : P.Point) :
    ∃ after, kernels.addOffset P offset = some after := by
  have decodesNow : Commitment.point P kernels.sum = some total := start
  unfold addOffset
  split <;> simp [decodesNow]

@[simp] theorem addOffset_zero (kernels : KernelAccumulator) :
    kernels.addOffset P 0 = some kernels := by
  simp [addOffset]

end KernelAccumulator

/-- Supply bookkeeping. -/
structure SupplyState where
  totalMintedDarks : UInt64
  totalBurnedDarks : UInt64
  deriving DecidableEq

inductive SupplyError where
  | malformedUtxo
  | malformedKernelSum
  | invariantViolated
  | capExceeded
  deriving DecidableEq

namespace SupplyState

def initial : SupplyState := ⟨0, 0⟩

/-- Coins that exist: minted minus burned fees, saturating. -/
def circulating (supply : SupplyState) : UInt64 :=
  Machine.saturatingSub supply.totalMintedDarks supply.totalBurnedDarks

/-- Hard cap check. -/
def wouldExceedCap (supply : SupplyState) (additionalMint : UInt64) : Bool :=
  match Machine.checkedAdd supply.totalMintedDarks additionalMint with
  | some total => total > maxSupplyDarks
  | none => true

theorem wouldExceedCap_eq_false {supply : SupplyState} {additionalMint : UInt64} :
    supply.wouldExceedCap additionalMint = false ↔
      supply.totalMintedDarks.toNat + additionalMint.toNat ≤ maxSupplyDarks.toNat := by
  have bound : maxSupplyDarks.toNat < 2 ^ 64 := maxSupplyDarks.toNat_lt
  unfold wouldExceedCap
  cases added : Machine.checkedAdd supply.totalMintedDarks additionalMint with
  | some total =>
      have exact := Machine.checkedAdd_eq_some.mp added
      simp only [gt_iff_lt, decide_eq_false_iff_not, UInt64.not_lt,
        UInt64.le_iff_toNat_le, exact]
  | none =>
      have overflow : ¬ (supply.totalMintedDarks.toNat + additionalMint.toNat < 2 ^ 64) := by
        rw [← Machine.checkedAdd_isSome, added]
        simp
      simp only [Bool.true_eq_false, false_iff]
      omega

end SupplyState

/-- `Σ UTXO − Σ kernel_excess == circulating·G`, for a sum that may not be the
set's current one. -/
def supplyEquationHolds (utxoSum : P.Point) (kernels : KernelAccumulator)
    (supply : SupplyState) : Except SupplyError Unit := do
  let kernelSum ← Guard.need (kernels.point P) .malformedKernelSum
  Guard.refuse (utxoSum - kernelSum ≠ commitPublicValue P supply.circulating)
    .invariantViolated
  Guard.refuse (supply.totalMintedDarks > maxSupplyDarks) .capExceeded

variable {P} in
def verifySupplyInvariant (utxos : UtxoSet P) (kernels : KernelAccumulator)
    (supply : SupplyState) : Except SupplyError Unit := do
  let utxoSum ← Guard.need utxos.commitmentSum .malformedUtxo
  supplyEquationHolds P utxoSum kernels supply

/-- Is a coinbase output old enough to spend? -/
def isMature (entry : UtxoEntry) (spendHeight : UInt64) (maturity : UInt64) : Bool :=
  if !entry.isCoinbase then true
  else spendHeight ≥ Machine.saturatingAdd entry.height maturity

variable {P}

theorem supplyEquationHolds_eq_ok {utxoSum : P.Point} {kernels : KernelAccumulator}
    {supply : SupplyState} {result : Unit} :
    supplyEquationHolds P utxoSum kernels supply = .ok result ↔
      ∃ kernelSum, kernels.point P = some kernelSum ∧
        utxoSum - kernelSum = commitPublicValue P supply.circulating ∧
        supply.totalMintedDarks ≤ maxSupplyDarks := by
  simp [supplyEquationHolds]

end Nightfall
