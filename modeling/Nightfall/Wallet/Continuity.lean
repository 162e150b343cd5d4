import Nightfall.Wallet.Pass
import Nightfall.Wallet.Sample

/-!
# Which lists of blocks join the wallet's history

`checkChainContinuity` compares one block with the anchor.  `Continuous` says what a
scanned list ought to satisfy, and `scanBlocks_continuous_iff` on which lists an accepted
scan satisfies it.
-/

namespace Nightfall

variable {P : Primitives}

namespace WalletFile

/-! ## Complete histories -/

theorem foldl_max_le {heights : List UInt64} {start bound : UInt64} :
    heights.foldl max start ≤ bound ↔ start ≤ bound ∧ ∀ height ∈ heights, height ≤ bound := by
  induction heights generalizing start with
  | nil => simp
  | cons height rest ih =>
      simp only [List.foldl_cons, ih, List.mem_cons, forall_eq_or_imp, UInt64.le_iff_toNat_le,
        UInt64.toNat_max]
      constructor
      · rintro ⟨both, others⟩
        exact ⟨by omega, by omega, others⟩
      · rintro ⟨first, second, others⟩
        exact ⟨by omega, others⟩

theorem coversCanonicalHistory_cons {first : Block} {rest : List Block}
    {birthHeight scannedTo : UInt64} {outputs : List OwnedOutput} :
    coversCanonicalHistory (first :: rest) birthHeight scannedTo outputs ↔
      (first.height = 0 ∨ first.height = birthHeight) ∧
        Block.consecutiveFrom first.height (first :: rest) ∧
        scannedTo ≤ ((first :: rest).getLast (by simp)).height ∧
        ∀ output ∈ outputs, output.height ≤ ((first :: rest).getLast (by simp)).height := by
  simp only [coversCanonicalHistory, List.head?_cons, List.getLast?_eq_some_getLast
    (List.cons_ne_nil first rest), Option.map_some, Option.getD_some]
  by_cases start : first.height = 0 ∨ first.height = birthHeight
  · rw [if_neg (by tauto)]
    cases consecutive : Block.consecutiveFrom first.height (first :: rest) with
    | false => simp
    | true =>
        simp only [Bool.not_true, Bool.false_eq_true, if_false, Bool.and_eq_true,
          decide_eq_true_eq, ge_iff_le, foldl_max_le, List.forall_mem_map, start, true_and]
        simp
  · rw [if_pos (by tauto)]
    simp [start]

/-- Consecutive heights that do not overflow pass the test on machine integers. -/
theorem consecutiveFrom_of_consecutive {first : Block} {rest : List Block}
    (consecutive : Block.Consecutive (first :: rest)) :
    Block.consecutiveFrom first.height (first :: rest) := by
  simp only [Block.consecutiveFrom, List.all_eq_true, beq_iff_eq, Prod.forall]
  intro block index member
  have found : (first :: rest)[index]? = some block :=
    (List.mk_mem_zipIdx_iff_getElem?).mp member
  have height := consecutive.height_eq found
  have bounded := block.height.toNat_lt
  apply UInt64.toNat_inj.mp
  rw [UInt64.toNat_add, UInt64.toNat_ofNat', height]
  omega

/-- A run of blocks is reconciled with exactly when it begins at genesis or the birth
height and reaches the scan position and every owned output. -/
theorem reconciles_iff {scanner : Scanner P} {db : WalletFile} {first : Block}
    {rest : List Block} (consecutive : Block.Consecutive (first :: rest)) :
    db.reconciles scanner (first :: rest) false ↔
      (first.height = 0 ∨ first.height = db.birthHeight) ∧
        db.scannedTo ≤ ((first :: rest).getLast (by simp)).height ∧
        ∀ output ∈ db.outputs, output.height ≤ ((first :: rest).getLast (by simp)).height := by
  have newOutputs : ∀ owned ∈ (first :: rest).flatMap (ownedOf scanner db.known),
      owned.height ≤ ((first :: rest).getLast (by simp)).height := by
    intro owned member
    obtain ⟨block, blockMember, member⟩ := List.mem_flatMap.mp member
    rw [ownedOf_height member, UInt64.le_iff_toNat_le, consecutive.getLast_height]
    have inside := consecutive.le_height blockMember
    omega
  have heights (bound : UInt64) :
      (∀ output ∈ db.mergedOutputs scanner (first :: rest), output.height ≤ bound) ↔
        (∀ output ∈ db.outputs, output.height ≤ bound) ∧
          ∀ owned ∈ (first :: rest).flatMap (ownedOf scanner db.known), owned.height ≤ bound := by
    rw [← List.forall_mem_append, ← List.forall_mem_map (f := OwnedOutput.height)
      (P := fun height => height ≤ bound), mergedOutputs, markSpent_heights, List.forall_mem_map]
  simp only [reconciles, Bool.false_or, coversCanonicalHistory_cons,
    consecutiveFrom_of_consecutive consecutive, true_and, heights]
  constructor
  · rintro ⟨start, reaches, outputs, _⟩
    exact ⟨start, reaches, outputs⟩
  · rintro ⟨start, reaches, outputs⟩
    exact ⟨start, reaches, outputs, newOutputs⟩

/-! ## Continuous scans -/

/-- The list contains the block that the wallet scanned last. -/
def ContainsAnchor (P : Primitives) (db : WalletFile) (blocks : List Block) : Prop :=
  ∃ block ∈ blocks, block.height = db.scannedTo ∧ (block.hash P).toHex = db.scannedTip

instance (db : WalletFile) (blocks : List Block) : Decidable (ContainsAnchor P db blocks) :=
  inferInstanceAs (Decidable (∃ block ∈ blocks, _))

/-- What an accepted scan from `db` to `next` ought to satisfy. -/
structure Continuous (scanner : Scanner P) (db next : WalletFile) (blocks : List Block) :
    Prop where
  linked : Block.Linked P blocks
  /-- The list contains the anchor, or the wallet was reconciled with a history from
  genesis or the birth height through the scan position. -/
  joined : ContainsAnchor P db blocks ∨ db.reconciles scanner blocks false
  /-- The position passed no height, from the birth height on, that the list lacks. -/
  shown : ∀ height, db.scannedTo < height → db.birthHeight ≤ height →
    height ≤ next.scannedTo → ∃ block ∈ blocks, block.height = height

/-- The first block stands at the scan position and is not the anchor. -/
def RefusesFirst (P : Primitives) (db : WalletFile) (first : Block) : Prop :=
  first.height = db.scannedTo ∧ (first.hash P).toHex ≠ db.scannedTip

theorem checkChainContinuity_cons {db : WalletFile} (anchored : db.scannedTip ≠ [])
    (first : Block) (rest : List Block) :
    db.checkChainContinuity P (first :: rest) = .ok () ↔ ¬db.RefusesFirst P first := by
  simp only [checkChainContinuity, List.isEmpty_iff, if_neg anchored, List.head?_cons,
    RefusesFirst, not_and, ne_eq, not_not]
  split
  · next elsewhere => simp [elsewhere]
  · next here =>
      rw [not_not] at here
      simp [checkScanAnchor, here, anchored]

end WalletFile

namespace Block

/-- A run of blocks shows every height from its first to its last. -/
theorem Consecutive.shows {first : Block} {rest : List Block}
    (consecutive : Consecutive (first :: rest)) {height : UInt64} (above : first.height ≤ height)
    (below : height ≤ ((first :: rest).getLast (by simp)).height) :
    ∃ block ∈ first :: rest, block.height = height := by
  rw [UInt64.le_iff_toNat_le] at above below
  rw [consecutive.getLast_height] at below
  have inside : height.toNat - first.height.toNat < (first :: rest).length := by
    rw [List.length_cons]
    omega
  refine ⟨_, List.getElem_mem inside, ?_⟩
  apply UInt64.toNat_inj.mp
  rw [consecutive.height_eq (List.getElem?_eq_getElem inside)]
  omega

end Block

namespace Wallet

variable {S : Sealing} {wallet : Wallet P}

/-- An accepted scan passed the continuity check and saved the scanned state. -/
theorem scanBlocks_eq_ok {blocks : List Block} {found : Nat} {scanned : Wallet P} :
    wallet.scanBlocks S blocks = (.ok found, scanned) ↔
      wallet.db.checkChainContinuity P blocks = .ok () ∧ wallet.storage ≠ .file false ∧
        found = (wallet.db.scanBlocksInner (wallet.scanner S) blocks false).2 ∧
        scanned = { wallet with
          db := (wallet.db.scanBlocksInner (wallet.scanner S) blocks false).1 } := by
  unfold scanBlocks
  cases checked : wallet.db.checkChainContinuity P blocks with
  | error error => simp
  | ok passed =>
      cases storage : wallet.storage with
      | memory =>
          simp [scanBlocksInner, save, storage, Except.map]
          exact and_congr eq_comm eq_comm
      | file writes =>
          cases writes with
          | false => simp [scanBlocksInner, save, storage, Except.map]
          | true =>
              simp [scanBlocksInner, save, storage, Except.map]
              exact and_congr eq_comm eq_comm

end Wallet

namespace WalletFile

/-- The lists after which the wallet may continue: one linked run that reaches the birth
height and either contains the anchor or is a whole history of the wallet. -/
structure JoinsHistory (P : Primitives) (db : WalletFile) (first : Block) (rest : List Block) :
    Prop where
  linked : Block.Linked P (first :: rest)
  birth : db.birthHeight ≤ ((first :: rest).getLast (by simp)).height
  joined : ContainsAnchor P db (first :: rest) ∨
    (first.height = 0 ∨ first.height = db.birthHeight) ∧
      db.scannedTo ≤ ((first :: rest).getLast (by simp)).height ∧
      ∀ output ∈ db.outputs, output.height ≤ ((first :: rest).getLast (by simp)).height

/-- A joined list reaches the scan position. -/
theorem JoinsHistory.reaches {db : WalletFile} {first : Block} {rest : List Block}
    (joins : JoinsHistory P db first rest) :
    db.scannedTo ≤ ((first :: rest).getLast (by simp)).height := by
  cases joins.joined with
  | inl anchor =>
      obtain ⟨block, member, height, _⟩ := anchor
      have inside := joins.linked.consecutive.le_height member
      rw [← height, UInt64.le_iff_toNat_le, joins.linked.consecutive.getLast_height]
      omega
  | inr complete => exact complete.2.1

/-- After a joined list the position is the height of its last block. -/
theorem JoinsHistory.scannedTo {scanner : Scanner P} {db : WalletFile} {first : Block}
    {rest : List Block} (joins : JoinsHistory P db first rest) :
    (db.scanBlocksInner scanner (first :: rest) false).1.scannedTo =
      ((first :: rest).getLast (by simp)).height := by
  have reaches := UInt64.le_iff_toNat_le.mp joins.reaches
  have birth := UInt64.le_iff_toNat_le.mp joins.birth
  rw [joins.linked.consecutive.getLast_height] at reaches birth
  rw [scanBlocksInner_scannedTo, if_neg (by simp)]
  apply joins.linked.consecutive.foldl_max
  rw [scanFrom, UInt64.toNat_max]
  omega

/-- A scan of a joined list is continuous. -/
theorem JoinsHistory.continuous {scanner : Scanner P} {db : WalletFile} {first : Block}
    {rest : List Block} (joins : JoinsHistory P db first rest) :
    Continuous scanner db (db.scanBlocksInner scanner (first :: rest) false).1
      (first :: rest) := by
  have consecutive := joins.linked.consecutive
  refine ⟨joins.linked, ?_, ?_⟩
  · cases joins.joined with
    | inl anchor => exact .inl anchor
    | inr complete => exact .inr ((reconciles_iff consecutive).mpr complete)
  · intro height above afterBirth below
    rw [joins.scannedTo] at below
    apply consecutive.shows _ below
    cases joins.joined with
    | inl anchor =>
        obtain ⟨block, member, position, _⟩ := anchor
        have inside := consecutive.le_height member
        rw [UInt64.lt_iff_toNat_lt, ← position] at above
        exact UInt64.le_iff_toNat_le.mpr (by omega)
    | inr complete =>
        cases complete.1 with
        | inl genesis =>
            rw [genesis, UInt64.le_iff_toNat_le]
            exact Nat.zero_le _
        | inr birth =>
            rw [birth]
            exact afterBirth

/-- A continuous scan was given a joined list. -/
theorem Continuous.joinsHistory {scanner : Scanner P} {db : WalletFile} {first : Block}
    {rest : List Block}
    (continuous : Continuous scanner db (db.scanBlocksInner scanner (first :: rest) false).1
      (first :: rest)) : JoinsHistory P db first rest := by
  have consecutive := continuous.linked.consecutive
  have complete : db.reconciles scanner (first :: rest) false → _ :=
    (reconciles_iff consecutive).mp
  refine ⟨continuous.linked, ?_, continuous.joined.imp id complete⟩
  -- Otherwise the position moves to the birth height, which the list does not reach.
  by_contra short
  rw [UInt64.not_le, UInt64.lt_iff_toNat_lt, consecutive.getLast_height] at short
  have reaches : db.scannedTo ≤ ((first :: rest).getLast (by simp)).height := by
    cases continuous.joined with
    | inl anchor =>
        obtain ⟨block, member, height, _⟩ := anchor
        have inside := consecutive.le_height member
        rw [← height, UInt64.le_iff_toNat_le, consecutive.getLast_height]
        omega
    | inr reconciled => exact (complete reconciled).2.1
  rw [UInt64.le_iff_toNat_le, consecutive.getLast_height] at reaches
  have position : db.birthHeight ≤
      (db.scanBlocksInner scanner (first :: rest) false).1.scannedTo := by
    have rises : ∀ (blocks : List Block) (start : UInt64),
        start ≤ blocks.foldl (fun highest block => max highest block.height) start := by
      intro blocks
      induction blocks with
      | nil => exact fun start => UInt64.le_refl start
      | cons block rest ih =>
          intro start
          refine UInt64.le_trans ?_ (ih (max start block.height))
          rw [UInt64.le_iff_toNat_le, UInt64.toNat_max]
          omega
    rw [scanBlocksInner_scannedTo, if_neg (by simp)]
    refine UInt64.le_trans ?_ (rises _ _)
    rw [scanFrom, UInt64.le_iff_toNat_le, UInt64.toNat_max]
    omega
  obtain ⟨block, member, height⟩ := continuous.shown db.birthHeight
    (UInt64.lt_iff_toNat_lt.mpr (by omega)) (UInt64.le_refl _) position
  have inside := consecutive.le_height member
  rw [height] at inside
  omega

end WalletFile

/-! ## Two branches -/

namespace Sample

/-- One branch of four blocks, and two blocks of another branch on the first of them.
The wallet owns what the other branch creates. -/
def common0 : Block := blockOn 0 0 [] [foreignOutput .coinbase 9 1]
def left1 : Block := blockAfter common0 [] [foreignOutput .coinbase 9 2]
def left2 : Block := blockAfter left1 [] [foreignOutput .coinbase 9 3]
def left3 : Block := blockAfter left2 [] [foreignOutput .coinbase 9 6]
def right1 : Block := blockAfter common0 [] [ownedOutput .coinbase 9 4]
def right2 : Block := blockAfter right1 [] [foreignOutput .coinbase 9 5]

/-- The wallet after three blocks of the left branch. -/
def leftWallet : Wallet primitives :=
  (wallet.scanBlocks sealing [common0, left1, left2]).2

end Sample

namespace Wallet

variable {S : Sealing} {wallet : Wallet P}

/-- An accepted scan is continuous exactly for the lists that join the wallet's history;
the others that scan nothing are those whose first block is a stranger at the scan
position, and every list when nothing can be saved. -/
theorem scanBlocks_continuous_iff (anchored : wallet.db.scannedTip ≠ [])
    (first : Block) (rest : List Block) :
    (∀ found scanned, wallet.scanBlocks S (first :: rest) = (.ok found, scanned) →
        WalletFile.Continuous (wallet.scanner S) wallet.db scanned.db (first :: rest)) ↔
      wallet.storage = .file false ∨ wallet.db.RefusesFirst P first ∨
        WalletFile.JoinsHistory P wallet.db first rest := by
  constructor
  · intro accepted
    by_cases saves : wallet.storage = .file false
    · exact .inl saves
    by_cases refused : wallet.db.RefusesFirst P first
    · exact .inr (.inl refused)
    have passed := (WalletFile.checkChainContinuity_cons anchored first rest).mpr refused
    exact .inr (.inr (accepted _ _
      (scanBlocks_eq_ok.mpr ⟨passed, saves, rfl, rfl⟩)).joinsHistory)
  · intro condition found scanned accepted
    obtain ⟨passed, saves, _, rfl⟩ := scanBlocks_eq_ok.mp accepted
    rcases condition with unsaved | refused | joins
    · exact absurd unsaved saves
    · exact absurd refused ((WalletFile.checkChainContinuity_cons anchored first rest).mp passed)
    · exact joins.continuous

/-- A wallet on the left branch continues with the next block of that branch. -/
theorem scanBlocks_continuous_left :
    WalletFile.JoinsHistory Sample.primitives Sample.leftWallet.db Sample.left2 [Sample.left3] ∧
      ∀ found scanned,
        Sample.leftWallet.scanBlocks Sample.sealing [Sample.left2, Sample.left3] =
            (.ok found, scanned) →
          WalletFile.Continuous (Sample.leftWallet.scanner Sample.sealing) Sample.leftWallet.db
            scanned.db [Sample.left2, Sample.left3] := by
  have joins : WalletFile.JoinsHistory Sample.primitives Sample.leftWallet.db Sample.left2
      [Sample.left3] :=
    ⟨by decide +kernel, by decide +kernel, .inl (by decide +kernel)⟩
  exact ⟨joins, (scanBlocks_continuous_iff (by decide +kernel) Sample.left2 [Sample.left3]).mpr
    (.inr (.inr joins))⟩

/-- A rescan that starts one block lower merges the right branch into the left one: the
wallet keeps its position and lists a coin that its anchor's branch does not have. -/
theorem scanBlocks_merges_branches :
    Sample.leftWallet.db.scannedTip ≠ [] ∧
      ¬∀ found scanned,
        Sample.leftWallet.scanBlocks Sample.sealing [Sample.right1, Sample.right2] =
            (.ok found, scanned) →
          WalletFile.Continuous (Sample.leftWallet.scanner Sample.sealing) Sample.leftWallet.db
            scanned.db [Sample.right1, Sample.right2] := by
  refine ⟨by decide +kernel, fun accepted => ?_⟩
  have scanned : (Sample.leftWallet.scanBlocks Sample.sealing
      [Sample.right1, Sample.right2]).1 = .ok 1 := by
    decide +kernel
  have unanchored : ¬WalletFile.ContainsAnchor Sample.primitives Sample.leftWallet.db
      [Sample.right1, Sample.right2] := by
    decide +kernel
  have unreconciled : ¬Sample.leftWallet.db.reconciles (Sample.leftWallet.scanner Sample.sealing)
      [Sample.right1, Sample.right2] false := by
    decide +kernel
  generalize Sample.leftWallet.scanBlocks Sample.sealing [Sample.right1, Sample.right2] = result
    at accepted scanned
  cases (accepted 1 result.2 (Prod.ext scanned rfl)).joined with
  | inl anchor => exact unanchored anchor
  | inr reconciled => exact unreconciled reconciled

end Wallet

end Nightfall
