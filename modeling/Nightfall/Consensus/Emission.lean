import Nightfall.Library.HalvingSum
import Nightfall.Consensus.Records

/-!
# Emission

The reward of a height, the clamp against the minted total and the cap test of the ledger
are three pieces of integer arithmetic.  The schedule pays a halving sum, whose bound is
exactly the cap, so the clamp never acts and the cap test never refuses.
-/

namespace Nightfall

/-! ## The schedule as a halving sum -/

namespace EmissionSchedule

def initialReward : Nat := lockedMainnet.initialRewardDarks.toNat

def halvingPeriod : Nat := lockedMainnet.halvingInterval.toNat

/-- The cap is what the schedule pays if no rounding takes anything away. -/
theorem maxSupply_eq : 2 * (halvingPeriod * initialReward) = Nightfall.maxSupplyDarks.toNat := by
  decide

/-- What the schedule pays unclamped over the heights below `count`. -/
def emitted (count : Nat) : Nat :=
  ∑ height ∈ Finset.range count, (lockedMainnet.theoreticalRewardAt (UInt64.ofNat height)).toNat

/-- The reward of a height.  From the 64th halving on the quotient is zero by itself. -/
theorem toNat_theoreticalRewardAt (height : UInt64) :
    (lockedMainnet.theoreticalRewardAt height).toNat =
      Halving.reward initialReward halvingPeriod height.toNat := by
  have quotient : (height / lockedMainnet.halvingInterval).toNat =
      height.toNat / halvingPeriod := UInt64.toNat_div _ _
  have configured : ¬(lockedMainnet.initialRewardDarks = 0 ∨
      lockedMainnet.halvingInterval = 0) := by decide
  unfold theoreticalRewardAt Halving.reward
  rw [if_neg configured]
  simp only [ge_iff_le, UInt64.le_iff_toNat_le, quotient]
  split
  next exhausted =>
      have many : 64 ≤ height.toNat / halvingPeriod := exhausted
      have small : initialReward < 2 ^ (height.toNat / halvingPeriod) := by
        calc initialReward < 2 ^ 64 := by decide
          _ ≤ 2 ^ (height.toNat / halvingPeriod) := Nat.pow_le_pow_right (by norm_num) many
      exact (Nat.div_eq_of_lt small).symm
  next paying =>
      have few : height.toNat / halvingPeriod < 64 := Nat.not_le.mp paying
      rw [UInt64.toNat_shiftRight, quotient, Nat.mod_eq_of_lt few, Nat.shiftRight_eq_div_pow]
      rfl

/-- Up to the last height, the sum is the halving sum. -/
theorem emitted_eq_total {count : Nat} (fits : count ≤ 2 ^ 64) :
    emitted count = Halving.total initialReward halvingPeriod count := by
  apply Finset.sum_congr rfl
  intro height inside
  have below : height < 2 ^ 64 := (Finset.mem_range.mp inside).trans_le fits
  rw [toNat_theoreticalRewardAt, UInt64.toNat_ofNat_of_lt' below]

theorem emitted_succ (height : UInt64) :
    emitted (height.toNat + 1) =
      emitted height.toNat + (lockedMainnet.theoreticalRewardAt height).toNat := by
  rw [emitted, Finset.sum_range_succ, UInt64.ofNat_toNat, ← emitted]

theorem emitted_mono : Monotone emitted := by
  apply monotone_nat_of_le_succ
  intro count
  rw [emitted, emitted, Finset.sum_range_succ]
  exact Nat.le_add_right _ _

/-- All the rewards of the schedule together stay within the cap. -/
theorem emitted_le {count : Nat} (fits : count ≤ 2 ^ 64) :
    emitted count ≤ Nightfall.maxSupplyDarks.toNat := by
  rw [emitted_eq_total fits, ← maxSupply_eq]
  exact Halving.total_le (by decide) count

theorem theoreticalRewardAt_eq_zero_of_le {earlier later : UInt64} (le : earlier ≤ later)
    (zero : lockedMainnet.theoreticalRewardAt earlier = 0) :
    lockedMainnet.theoreticalRewardAt later = 0 := by
  rw [← UInt64.toNat_inj, toNat_theoreticalRewardAt] at zero ⊢
  exact Halving.reward_eq_zero_of_le (UInt64.le_iff_toNat_le.mp le) zero

/-- Where the reward fits below the cap, the clamp does not act. -/
theorem rewardAt_of_room {height minted : UInt64}
    (room : minted.toNat + (lockedMainnet.theoreticalRewardAt height).toNat ≤
      Nightfall.maxSupplyDarks.toNat) :
    lockedMainnet.rewardAt height minted = lockedMainnet.theoreticalRewardAt height := by
  have cap : lockedMainnet.maxSupplyDarks = Nightfall.maxSupplyDarks := rfl
  unfold rewardAt
  rw [cap, ← UInt64.toNat_inj]
  split
  next full =>
      have reached : Nightfall.maxSupplyDarks.toNat ≤ minted.toNat := UInt64.le_iff_toNat_le.mp full
      simp only [UInt64.toNat_zero]
      omega
  next below =>
      have short : minted ≤ Nightfall.maxSupplyDarks := by
        rw [UInt64.le_iff_toNat_le]
        omega
      have left : (Nightfall.maxSupplyDarks - minted).toNat = Nightfall.maxSupplyDarks.toNat - minted.toNat :=
        UInt64.toNat_sub_of_le _ _ short
      have smaller : lockedMainnet.theoreticalRewardAt height ≤
          Nightfall.maxSupplyDarks - minted := by
        rw [UInt64.le_iff_toNat_le, left]
        omega
      rw [Std.min_eq_if, if_pos smaller]

end EmissionSchedule

open EmissionSchedule (lockedMainnet emitted)

variable {P : Primitives}

/-! ## The ledger after some blocks -/

/-- The minted total of a ledger is what the schedule pays below a height. -/
def LedgerState.HasEmitted (ledger : LedgerState P) (count : Nat) : Prop :=
  ledger.supply.totalMintedDarks.toNat = emitted count

namespace LedgerState.HasEmitted

variable {ledger : LedgerState P} {height : UInt64}

theorem room (minted : ledger.HasEmitted height.toNat) :
    ledger.supply.totalMintedDarks.toNat + (lockedMainnet.theoreticalRewardAt height).toNat ≤
      maxSupplyDarks.toNat := by
  rw [minted, ← EmissionSchedule.emitted_succ]
  exact EmissionSchedule.emitted_le (Nat.succ_le_of_lt height.toNat_lt)

/-- The next reward is the one of the schedule. -/
theorem subsidyAt_eq (minted : ledger.HasEmitted height.toNat) :
    subsidyAt ledger height = lockedMainnet.theoreticalRewardAt height :=
  EmissionSchedule.rewardAt_of_room minted.room

/-- The cap test of the ledger lets the next reward pass. -/
theorem wouldExceedCap_eq (minted : ledger.HasEmitted height.toNat) :
    ledger.supply.wouldExceedCap (lockedMainnet.theoreticalRewardAt height) = false :=
  SupplyState.wouldExceedCap_eq_false.mpr minted.room

end LedgerState.HasEmitted

/-- Staging the counters adds the reward to the minted total. -/
theorem LedgerState.toNat_minted_of_stageSupply {supply next : SupplyState}
    {expectedReward fees : UInt64}
    (staged : LedgerState.stageSupply supply expectedReward fees = .ok next) :
    next.totalMintedDarks.toNat = supply.totalMintedDarks.toNat + expectedReward.toNat := by
  unfold LedgerState.stageSupply at staged
  split at staged
  next positive =>
      simp only [Guard.bind_eq_ok, Guard.need_eq_ok, Machine.checkedAdd_eq_some,
        Except.ok.injEq] at staged
      obtain ⟨minted, exact, burned, _, rfl⟩ := staged
      exact exact
  next nothing =>
      obtain rfl := Except.ok.inj staged
      have zero : expectedReward.toNat = 0 := by
        rw [gt_iff_lt, UInt64.lt_iff_toNat_lt] at nothing
        exact Nat.eq_zero_of_not_pos nothing
      rw [zero, Nat.add_zero]

/-- A replayed block at the next height keeps the minted total on the schedule. -/
theorem LedgerState.HasEmitted.replayBlock {ledger : LedgerState P} {block : Block}
    (minted : ledger.HasEmitted block.header.height.toNat)
    (replays : (ledger.applyBlockStateOnly block.body block.header.height
      (subsidyAt ledger block.header.height)).1 = .ok ()) :
    (replayBlock ledger block).HasEmitted (block.header.height.toNat + 1) := by
  have applied : ledger.applyBlockStateOnly block.body block.header.height
      (subsidyAt ledger block.header.height) = (.ok (), Nightfall.replayBlock ledger block) :=
    Prod.ext replays rfl
  obtain ⟨staged, validated, next⟩ := LedgerState.applyBlockStateOnly_ok_iff.mp applied
  obtain ⟨-, -, -, -, -, -, -, stagedSupply⟩ := LedgerState.validateStateOnly_eq_ok.mp validated
  have added := LedgerState.toNat_minted_of_stageSupply stagedSupply
  rw [LedgerState.HasEmitted, next, EmissionSchedule.emitted_succ, ← minted, ← minted.subsidyAt_eq]
  exact added

/-- The replay of a linked list of blocks is on the schedule. -/
theorem replay_hasEmitted {network : NetworkId} {full : List Block}
    (linked : Linked P network full) (replays : Chained (ReplaysOn P network) full) :
    (replay P network full).HasEmitted full.length := by
  induction full using List.reverseRecOn with
  | nil => rfl
  | append_singleton before block ih =>
      have minted := ih linked.of_append replays.of_append
      rw [← linked.last.height] at minted
      have next := minted.replayBlock replays.last
      rwa [linked.last.height, ← replay_concat, ← List.length_singleton (a := block),
        ← List.length_append] at next

/-- The ledger of a chain is on the schedule, and so was it after each of its blocks. -/
theorem Follows.hasEmitted {R : LiveRelation P} {chain : Chain P} {full : List Block}
    (follows : Follows R chain chain.firstHeight full) :
    chain.ledger.HasEmitted full.length := by
  have replayed := replay_hasEmitted follows.describes.linked follows.replays
  rwa [LedgerState.HasEmitted, ← R.supply_eq follows.live] at replayed

/-! ## Runs -/

/-- After every run the minted total is the sum of the unclamped rewards below the tip, and
it was so after each block of the chain; the clamp and the cap test never acted.  The sum
is monotone, stays within the cap, and ends for good. -/
theorem Node.emission_exact {network : NetworkId} {ops : List Op}
    (collisionFree : CollisionFree P ops) (fits : FitsAlong (P := P) network ops) :
    let chain := ((Node.start P network).run ops).chain
    (∃ full : List Block, chain.headers = full.map (CompactHeader.fromBlock P) ∧
      chain.ledger.supply = (replay P network full).supply ∧
      ∀ height : UInt64, height.toNat ≤ full.length →
        let ledger := replay P network (full.take height.toNat)
        ledger.supply.totalMintedDarks.toNat = emitted height.toNat ∧
          subsidyAt ledger height = lockedMainnet.theoreticalRewardAt height ∧
          ledger.supply.wouldExceedCap (lockedMainnet.theoreticalRewardAt height) = false) ∧
    chain.ledger.supply.totalMintedDarks.toNat = emitted chain.headers.length ∧
    subsidyAt chain.ledger chain.nextHeight =
      lockedMainnet.theoreticalRewardAt chain.nextHeight ∧
    Monotone emitted ∧
    (∀ count ≤ 2 ^ 64, emitted count ≤ maxSupplyDarks.toNat) ∧
    (∀ earlier later : UInt64, earlier ≤ later → lockedMainnet.theoreticalRewardAt earlier = 0 →
      lockedMainnet.theoreticalRewardAt later = 0) := by
  intro chain
  have admissible := admissible_of_fitsAlong (R := belowRelation P) fits
    (trustedBy_of_forall (fun _ _ => trivial) network ops)
  obtain ⟨full, holds⟩ := Node.holds_run collisionFree.hash_injOn admissible
  have follows := holds.chain.follows
  have minted := follows.hasEmitted
  have sameNetwork : chain.network = network := holds.sameNetwork
  have length : chain.headers.length = full.length := by
    rw [follows.describes.headers, List.length_map]
  refine ⟨⟨full, follows.describes.headers, ?_, ?_⟩, ?_, ?_, EmissionSchedule.emitted_mono,
    fun count => EmissionSchedule.emitted_le,
    fun earlier later => EmissionSchedule.theoreticalRewardAt_eq_zero_of_le⟩
  · rw [← sameNetwork]
    exact follows.live.supply
  · intro height inside ledger
    have linked := follows.describes.linked.take height.toNat
    have replays := follows.replays.take height.toNat
    rw [sameNetwork] at linked replays
    have reached : ledger.HasEmitted (full.take height.toNat).length :=
      replay_hasEmitted linked replays
    rw [List.length_take, min_eq_left inside] at reached
    exact ⟨reached, reached.subsidyAt_eq, reached.wouldExceedCap_eq⟩
  · rw [length]
    exact minted
  · rw [← follows.describes.nextHeight_toNat] at minted
    exact minted.subsidyAt_eq

open Sample in
/-- The hypotheses hold along a run with a reorg. -/
theorem Node.emission_exact_honest :
    ((Node.start primitives .devnet).run honestOps).chain.ledger.supply.totalMintedDarks.toNat =
      emitted ((Node.start primitives .devnet).run honestOps).chain.headers.length :=
  (Node.emission_exact (by decide +kernel) (by decide +kernel)).2.1

end Nightfall
