import Nightfall.Library.GuardedRun
import Nightfall.Ledger.Utxo
import Nightfall.Sample

/-!
# The cached sum of the unspent set

The set states its sum from a running total, and walks the entries when the total does
not cover all of them.  A deserialised set starts with a total that covers nothing.  As
long as no entry is removed that the total does not count, either it covers every entry
or its counter stays behind, and the two ways of summing agree.
-/

namespace Nightfall

open Std KeySum

variable {P : Primitives}

namespace UtxoSet

/-! ## The sum by definition -/

theorem isSome_get_of_mem_keys {utxos : UtxoSet P} {commit : Commitment}
    (member : commit ∈ utxos.entries.keys) : (utxos.get commit).isSome := by
  rw [← contains_eq_isSome]
  exact ExtTreeMap.mem_iff_contains.mp (ExtTreeMap.mem_keys.mp member)

theorem wellEncoded_iff {utxos : UtxoSet P} :
    utxos.WellEncoded ↔ ∀ commit ∈ utxos.entries.keys, (Commitment.point P commit).isSome := by
  constructor
  · intro encoded commit member
    obtain ⟨entry, found⟩ := Option.isSome_iff_exists.mp (isSome_get_of_mem_keys member)
    exact encoded commit entry found
  · intro decodes commit entry found
    exact decodes commit (ExtTreeMap.mem_keys.mpr (mem_of_get_eq_some found))

/-- The walk adds up the points of the keys. -/
theorem commitmentSumByWalking_eq (utxos : UtxoSet P) :
    utxos.commitmentSumByWalking = Commitment.sum P utxos.entries.keys := by
  apply Option.ext
  intro total
  unfold commitmentSumByWalking
  rw [foldlM_add_eq_some]
  simp

theorem commitmentSumByWalking_eq_some {utxos : UtxoSet P} {total : P.Point} :
    utxos.commitmentSumByWalking = some total ↔
      utxos.WellEncoded ∧ total = keySum (Commitment.pointOrZero P) utxos.entries := by
  rw [commitmentSumByWalking_eq, Commitment.sum_eq_some, wellEncoded_iff]
  rfl

theorem commitmentSumByWalking_eq_none {utxos : UtxoSet P} :
    utxos.commitmentSumByWalking = none ↔ ¬utxos.WellEncoded := by
  rw [← Option.not_isSome_iff_eq_none, Option.isSome_iff_exists, not_iff_not]
  constructor
  · rintro ⟨total, walked⟩
    exact (commitmentSumByWalking_eq_some.mp walked).1
  · intro encoded
    exact ⟨_, commitmentSumByWalking_eq_some.mpr ⟨encoded, rfl⟩⟩

/-- Cached values that describe the entries state the walked sum. -/
theorem Tracks.commitmentSum_eq_walking {utxos : UtxoSet P} (tracks : utxos.Tracks) :
    utxos.commitmentSum = utxos.commitmentSumByWalking := by
  by_cases encoded : utxos.WellEncoded
  · rw [tracks.commitmentSum_of_wellEncoded encoded, tracks.sum_eq]
    exact (commitmentSumByWalking_eq_some.mpr ⟨encoded, rfl⟩).symm
  · rw [commitmentSumByWalking_eq_none.mpr encoded, tracks.commitmentSum_eq, if_pos]
    exact Nat.pos_of_ne_zero fun zero => encoded (tracks.malformed_eq_zero.mp zero)

theorem rebuildSum_tracks (utxos : UtxoSet P) : utxos.rebuildSum.Tracks := by
  have counted (keys : List Bytes32) :
      (keys.filterMap (Commitment.point P)).sum = (keys.map (Commitment.pointOrZero P)).sum ∧
      (keys.countP fun commit => (Commitment.point P commit).isNone) =
        (keys.map (invalidCount P)).sum := by
    induction keys with
    | nil => exact ⟨rfl, rfl⟩
    | cons commit rest ih =>
        cases decoded : Commitment.point P commit with
        | some point =>
            simp [decoded, Commitment.pointOrZero, invalidCount, ih.1, ih.2]
        | none =>
            simp [decoded, Commitment.pointOrZero, invalidCount, ih.1, ih.2, Nat.add_comm]
  exact ⟨(counted _).1, (counted _).2, rfl⟩

/-! ## Runs -/

/-- What a file gives back: the entries, and cached values that cover none of them. -/
def deserialised (entries : ExtTreeMap Bytes32 UtxoEntry compare) : UtxoSet P :=
  ⟨entries, 0, 0, 0⟩

inductive SetOp where
  | insert (commit : Commitment) (entry : UtxoEntry)
  | remove (commit : Commitment)
  | rebuildSum
  /-- The run goes on with the copy. -/
  | clone

def step (utxos : UtxoSet P) : SetOp → UtxoSet P
  | .insert commit entry => utxos.insert commit entry
  | .remove commit => utxos.remove commit
  | .rebuildSum => utxos.rebuildSum
  | .clone => utxos

/-- An entry is removed only while the running sum covers some entry. -/
def Counts (utxos : UtxoSet P) : SetOp → Prop
  | .remove commit => utxos.contains commit = true → 0 < utxos.summed
  | _ => True

instance (utxos : UtxoSet P) (op : SetOp) : Decidable (utxos.Counts op) := by
  cases op with
  | remove commit => exact inferInstanceAs (Decidable (_ → _))
  | insert commit entry => exact isTrue trivial
  | rebuildSum => exact isTrue trivial
  | clone => exact isTrue trivial

/-- The cached values describe the entries, or the counter shows that they do not. -/
def Honest (utxos : UtxoSet P) : Prop :=
  utxos.Tracks ∨ utxos.summed < utxos.entries.size

theorem honest_deserialised (entries : ExtTreeMap Bytes32 UtxoEntry compare) :
    (deserialised entries : UtxoSet P).Honest := by
  by_cases none : entries = ∅
  · subst none
    exact .inl tracks_empty
  · right
    change 0 < entries.size
    exact Nat.pos_of_ne_zero fun zero => none (ExtTreeMap.eq_empty_iff_size_eq_zero.mpr zero)

theorem Honest.commitmentSum_eq {utxos : UtxoSet P} (honest : utxos.Honest) :
    utxos.commitmentSum = utxos.commitmentSumByWalking := by
  rcases honest with tracks | behind
  · exact tracks.commitmentSum_eq_walking
  · rw [commitmentSum, if_pos (Nat.ne_of_lt behind)]

/-- A fresh entry moves the counter and the size alike. -/
theorem Honest.insert {utxos : UtxoSet P} (honest : utxos.Honest) (commit : Commitment)
    (entry : UtxoEntry) : (utxos.insert commit entry).Honest := by
  rcases honest with tracks | behind
  · exact .inl (tracks.insert commit entry)
  · right
    cases present : utxos.entries.contains commit with
    | true =>
        have same : (utxos.insert commit entry).summed = utxos.summed := by
          simp only [UtxoSet.insert, contains, present, if_true]
        rw [same, entries_insert, ExtTreeMap.size_insert, present, if_pos rfl]
        exact behind
    | false =>
        have counted : (utxos.insert commit entry).summed = utxos.summed + 1 := by
          simp only [UtxoSet.insert, contains, present, Bool.false_eq_true, if_false]
          split <;> rfl
        rw [counted, entries_insert, ExtTreeMap.size_insert, present, if_neg Bool.false_ne_true]
        exact Nat.succ_lt_succ behind

theorem Honest.remove {utxos : UtxoSet P} (honest : utxos.Honest) {commit : Commitment}
    (counts : utxos.Counts (.remove commit)) : (utxos.remove commit).Honest := by
  rcases honest with tracks | behind
  · exact .inl (tracks.remove commit)
  · right
    cases present : utxos.entries.contains commit with
    | true =>
        have covered : 0 < utxos.summed := counts present
        have counted : (utxos.remove commit).summed = utxos.summed - 1 := by
          simp only [UtxoSet.remove, contains, present, if_true]
          split <;> rfl
        rw [counted, entries_remove, ExtTreeMap.size_erase, present, if_pos rfl]
        omega
    | false =>
        have same : (utxos.remove commit).summed = utxos.summed := by
          simp only [UtxoSet.remove, contains, present, Bool.false_eq_true, if_false]
        rw [same, entries_remove, ExtTreeMap.size_erase, present, if_neg Bool.false_ne_true]
        exact behind

theorem Honest.step {utxos : UtxoSet P} (honest : utxos.Honest) {op : SetOp}
    (counts : utxos.Counts op) : (utxos.step op).Honest := by
  cases op with
  | insert commit entry => exact honest.insert commit entry
  | remove commit => exact honest.remove counts
  | rebuildSum => exact .inl utxos.rebuildSum_tracks
  | clone => exact honest

theorem Honest.run {utxos : UtxoSet P} (honest : utxos.Honest) {ops : List SetOp}
    (counts : GuardedRun.Along UtxoSet.step Counts utxos ops) :
    (GuardedRun.run UtxoSet.step utxos ops).Honest :=
  counts.invariant honest fun _ _ honest counts => honest.step counts

/-! ## The projected sum -/

/-- Perform removals and then insertions. -/
def replaceOps (removed : List Commitment) (added : List (Commitment × UtxoEntry)) :
    List SetOp :=
  removed.map .remove ++ added.map fun (commit, entry) => .insert commit entry

theorem run_replaceOps (utxos : UtxoSet P) (removed : List Commitment)
    (added : List (Commitment × UtxoEntry)) :
    GuardedRun.run step utxos (replaceOps removed added) =
      (utxos.removeAll removed).insertAll added := by
  rw [replaceOps, GuardedRun.run_append]
  simp only [GuardedRun.run, List.foldl_map]
  rfl

/-- The removals that find nothing. -/
def idleRemovals : UtxoSet P → List Commitment → List Commitment
  | _, [] => []
  | utxos, commit :: rest =>
      if utxos.contains commit then idleRemovals (utxos.remove commit) rest
      else commit :: idleRemovals (utxos.remove commit) rest

/-- The insertions that overwrite. -/
def idleInsertions : UtxoSet P → List (Commitment × UtxoEntry) → List Commitment
  | _, [] => []
  | utxos, (commit, entry) :: rest =>
      if utxos.contains commit then commit :: idleInsertions (utxos.insert commit entry) rest
      else idleInsertions (utxos.insert commit entry) rest

variable (P) in
/-- Sum of the points of a list. -/
def pointSum (commits : List Commitment) : P.Point :=
  (commits.map (Commitment.pointOrZero P)).sum

/-- Sum of the points of the entries. -/
def entrySum (utxos : UtxoSet P) : P.Point :=
  keySum (Commitment.pointOrZero P) utxos.entries

theorem entrySum_insert (utxos : UtxoSet P) (commit : Commitment) (entry : UtxoEntry) :
    (utxos.insert commit entry).entrySum =
      if utxos.contains commit then utxos.entrySum
      else utxos.entrySum + Commitment.pointOrZero P commit := by
  unfold entrySum
  rw [entries_insert]
  split
  · next present => exact keySum_insert_of_mem _ entry (ExtTreeMap.mem_iff_contains.mpr present)
  · next absent =>
      rw [keySum_insert _ entry (by rwa [ExtTreeMap.mem_iff_contains]), add_comm]

/-- Removing an absent commitment changes nothing. -/
theorem entries_remove_of_absent {utxos : UtxoSet P} {commit : Commitment}
    (absent : ¬utxos.contains commit = true) : (utxos.remove commit).entries = utxos.entries := by
  apply entries_ext
  intro other
  rw [get_remove]
  split
  · next same =>
      rw [contains_eq_isSome, Option.not_isSome_iff_eq_none] at absent
      rw [same, absent]
  · rfl

theorem entrySum_remove (utxos : UtxoSet P) (commit : Commitment) :
    (utxos.remove commit).entrySum =
      if utxos.contains commit then utxos.entrySum - Commitment.pointOrZero P commit
      else utxos.entrySum := by
  unfold entrySum
  split
  · next present =>
      rw [keySum_erase _ (ExtTreeMap.mem_iff_contains.mpr present), entries_remove]
      abel
  · next absent => rw [entries_remove_of_absent absent]

theorem entrySum_removeAll (utxos : UtxoSet P) (removed : List Commitment) :
    (utxos.removeAll removed).entrySum =
      utxos.entrySum - pointSum P removed + pointSum P (utxos.idleRemovals removed) := by
  induction removed generalizing utxos with
  | nil => simp [pointSum, idleRemovals]
  | cons commit rest ih =>
      rw [removeAll_cons, ih, entrySum_remove, idleRemovals]
      split
      · simp only [pointSum, List.map_cons, List.sum_cons]
        abel
      · simp only [pointSum, List.map_cons, List.sum_cons]
        abel

theorem entrySum_insertAll (utxos : UtxoSet P) (added : List (Commitment × UtxoEntry)) :
    (utxos.insertAll added).entrySum =
      utxos.entrySum + pointSum P (added.map Prod.fst) - pointSum P (utxos.idleInsertions added) := by
  induction added generalizing utxos with
  | nil => simp [pointSum, idleInsertions]
  | cons change rest ih =>
      obtain ⟨commit, entry⟩ := change
      rw [insertAll_cons, ih, entrySum_insert, idleInsertions]
      split
      · simp only [pointSum, List.map_cons, List.sum_cons]
        abel
      · simp only [pointSum, List.map_cons, List.sum_cons]
        abel

/-- The points that the projection needs can be decoded. -/
def Decodes (utxos : UtxoSet P) (removed : List Commitment)
    (added : List (Commitment × UtxoEntry)) : Prop :=
  utxos.WellEncoded ∧ (∀ commit ∈ removed, (Commitment.point P commit).isSome) ∧
    ∀ commit ∈ added.map Prod.fst, (Commitment.point P commit).isSome

/-- When the projection is the sum afterwards: what it subtracts for nothing is what it
adds twice, and where it cannot decode a point the set afterwards has one that cannot be
decoded either. -/
structure Projects (utxos : UtxoSet P) (removed : List Commitment)
    (added : List (Commitment × UtxoEntry)) : Prop where
  balanced : utxos.Decodes removed added →
    pointSum P (utxos.idleRemovals removed) =
      pointSum P ((utxos.removeAll removed).idleInsertions added)
  undecodable : ¬utxos.Decodes removed added →
    ¬((utxos.removeAll removed).insertAll added).WellEncoded

theorem sumAfter_of_decodes {utxos : UtxoSet P} (honest : utxos.Honest)
    {removed : List Commitment} {added : List (Commitment × UtxoEntry)}
    (decodes : utxos.Decodes removed added) :
    utxos.sumAfter removed (added.map Prod.fst) =
      some (utxos.entrySum - pointSum P removed + pointSum P (added.map Prod.fst)) := by
  obtain ⟨encoded, removedDecode, addedDecode⟩ := decodes
  refine sumAfter_eq_some.mpr ⟨utxos.entrySum, _, _, ?_,
    (Commitment.sum_eq_some P).mpr ⟨removedDecode, rfl⟩,
    (Commitment.sum_eq_some P).mpr ⟨addedDecode, rfl⟩, rfl⟩
  rw [honest.commitmentSum_eq]
  exact commitmentSumByWalking_eq_some.mpr ⟨encoded, rfl⟩

theorem sumAfter_of_not_decodes {utxos : UtxoSet P} (honest : utxos.Honest)
    {removed : List Commitment} {added : List (Commitment × UtxoEntry)}
    (decodes : ¬utxos.Decodes removed added) :
    utxos.sumAfter removed (added.map Prod.fst) = none := by
  by_contra stated
  obtain ⟨projected, found⟩ := Option.ne_none_iff_exists'.mp stated
  obtain ⟨total, spent, created, sum, removedSum, addedSum, -⟩ := sumAfter_eq_some.mp found
  rw [honest.commitmentSum_eq] at sum
  exact decodes ⟨(commitmentSumByWalking_eq_some.mp sum).1,
    ((Commitment.sum_eq_some P).mp removedSum).1, ((Commitment.sum_eq_some P).mp addedSum).1⟩

theorem Decodes.wellEncoded {utxos : UtxoSet P} {removed : List Commitment}
    {added : List (Commitment × UtxoEntry)} (decodes : utxos.Decodes removed added) :
    ((utxos.removeAll removed).insertAll added).WellEncoded :=
  (decodes.1.removeAll removed).insertAll decodes.2.2

theorem balanced_iff {A : Type*} [AddCommGroup A] (start removed added idle twice : A) :
    start - removed + added = start - removed + idle + added - twice ↔ idle = twice := by
  have difference : start - removed + idle + added - twice - (start - removed + added) =
      idle - twice := by
    abel
  rw [eq_comm, ← sub_eq_zero, difference, sub_eq_zero]

/-- The projection is the sum afterwards exactly when it counts nothing twice. -/
theorem sumAfter_eq_iff {utxos : UtxoSet P} (honest : utxos.Honest) {removed : List Commitment}
    {added : List (Commitment × UtxoEntry)}
    (honestAfter : ((utxos.removeAll removed).insertAll added).Honest) :
    utxos.sumAfter removed (added.map Prod.fst) =
        ((utxos.removeAll removed).insertAll added).commitmentSum ↔
      utxos.Projects removed added := by
  rw [honestAfter.commitmentSum_eq]
  by_cases decodes : utxos.Decodes removed added
  · have walked : ((utxos.removeAll removed).insertAll added).commitmentSumByWalking =
        some ((utxos.removeAll removed).insertAll added).entrySum :=
      commitmentSumByWalking_eq_some.mpr ⟨decodes.wellEncoded, rfl⟩
    rw [sumAfter_of_decodes honest decodes, walked, Option.some.injEq, entrySum_insertAll,
      entrySum_removeAll]
    rw [balanced_iff]
    exact ⟨fun equal => ⟨fun _ => equal, fun undecodable => absurd decodes undecodable⟩,
      fun projects => projects.balanced decodes⟩
  · rw [sumAfter_of_not_decodes honest decodes, eq_comm, commitmentSumByWalking_eq_none]
    exact ⟨fun undecodable => ⟨fun decoded => absurd decoded decodes, fun _ => undecodable⟩,
      fun projects => projects.undecodable decodes⟩

theorem idleRemovals_eq_nil {utxos : UtxoSet P} {removed : List Commitment}
    (nodup : removed.Nodup) (present : ∀ commit ∈ removed, utxos.contains commit = true) :
    utxos.idleRemovals removed = [] := by
  induction removed generalizing utxos with
  | nil => rfl
  | cons commit rest ih =>
      rw [List.nodup_cons] at nodup
      rw [idleRemovals, if_pos (present commit List.mem_cons_self)]
      apply ih nodup.2
      intro other member
      have different : other ≠ commit := by
        rintro rfl
        exact nodup.1 member
      have there := present other (List.mem_cons_of_mem _ member)
      rw [contains_eq_isSome] at there ⊢
      rwa [get_remove, if_neg different]

theorem idleInsertions_eq_nil {utxos : UtxoSet P} {added : List (Commitment × UtxoEntry)}
    (nodup : (added.map Prod.fst).Nodup)
    (fresh : ∀ commit ∈ added.map Prod.fst, utxos.contains commit = false) :
    utxos.idleInsertions added = [] := by
  induction added generalizing utxos with
  | nil => rfl
  | cons change rest ih =>
      obtain ⟨commit, entry⟩ := change
      rw [List.map_cons, List.nodup_cons] at nodup
      have absent : utxos.contains commit = false := fresh commit (by simp)
      rw [idleInsertions, absent, if_neg Bool.false_ne_true]
      apply ih nodup.2
      intro other member
      have different : other ≠ commit := by
        rintro rfl
        exact nodup.1 member
      have still := fresh other (by simp [member])
      rw [contains_eq_isSome] at still ⊢
      rwa [get_insert, if_neg different]

/-- Changes that a block makes: what it removes is there, once, and what it adds is not. -/
structure Replaces (utxos : UtxoSet P) (removed : List Commitment)
    (added : List (Commitment × UtxoEntry)) : Prop where
  removed_nodup : removed.Nodup
  present : ∀ commit ∈ removed, utxos.contains commit = true
  added_nodup : (added.map Prod.fst).Nodup
  fresh : ∀ commit ∈ added.map Prod.fst, (utxos.removeAll removed).contains commit = false

theorem Replaces.projects {utxos : UtxoSet P} (encoded : utxos.WellEncoded)
    {removed : List Commitment} {added : List (Commitment × UtxoEntry)}
    (replaces : utxos.Replaces removed added) : utxos.Projects removed added where
  balanced _ := by
    rw [idleRemovals_eq_nil replaces.removed_nodup replaces.present,
      idleInsertions_eq_nil replaces.added_nodup replaces.fresh]
  undecodable decodes encodedAfter := by
    refine decodes ⟨encoded, fun commit member => ?_, fun commit member => ?_⟩
    · have there := replaces.present commit member
      rw [contains_eq_isSome] at there
      obtain ⟨entry, found⟩ := Option.isSome_iff_exists.mp there
      exact encoded commit entry found
    · obtain ⟨entry, found⟩ := Option.isSome_iff_exists.mp
        (isSome_get_insertAll_of_mem (utxos.removeAll removed) member)
      exact encodedAfter commit entry found

section Sample

open Sample

/-- A file with one entry. -/
def savedEntries : ExtTreeMap Bytes32 UtxoEntry compare :=
  (∅ : ExtTreeMap Bytes32 UtxoEntry compare).insert zeroValued ⟨0, 0, false⟩

/-- The entry that was loaded is removed after its sum was rebuilt. -/
def savedOps : List SetOp :=
  [.insert (commitTo 5 1) ⟨0, 1, false⟩, .clone, .rebuildSum, .remove zeroValued]

end Sample

end UtxoSet

end Nightfall
