import Nightfall.Wallet.Sample
import Nightfall.Wallet.Branch

/-!
# The feed and the checks of its reader

The page that a node serves decodes to the outputs and inputs of its blocks.  What the
reader checks of an output is what the ledger checked, except for the length of the
payload.
-/

namespace Nightfall

variable {P : Primitives}

/-! ## What a served page says -/

@[simp] theorem Block.asCandidate_lightOutput (block : Block) (output : Output) :
    (block.lightOutput output).asCandidate = some (.fromOutput output) := by
  simp [LightOutput.asCandidate, lightOutput, ScanCandidate.fromOutput, Hex.decode_encode]

theorem scanFeed_candidates (start : UInt64) (blocks : List Block) :
    (scanFeed start blocks).outputs.filterMap LightOutput.asCandidate =
      blocks.flatMap fun block => block.body.outputs.map .fromOutput := by
  simp [scanFeed, List.filterMap_flatMap]

theorem scanFeed_commits (start : UInt64) (blocks : List Block) :
    ((scanFeed start blocks).outputs.filterMap LightOutput.asCandidate).map
        ScanCandidate.commit =
      blocks.flatMap fun block => block.body.outputCommits := by
  simp [scanFeed_candidates, List.map_flatMap, BlockBody.outputCommits, Function.comp_def,
    ScanCandidate.fromOutput]

theorem scanFeed_spent (start : UInt64) (blocks : List Block) :
    (scanFeed start blocks).spent.filterMap decode32 =
      blocks.flatMap fun block => block.body.inputCommits := by
  simp [scanFeed, List.filterMap_flatMap]

namespace WalletFile

/-! ## The checks of a page -/

/-- A candidate with a payload of the sealed length and three valid points. -/
structure WellFormed (P : Primitives) (candidate : ScanCandidate) : Prop where
  payload : candidate.payload.length = 120
  commit : (P.decompress candidate.commit).isSome
  ephemeralPk : (P.decompress candidate.ephemeralPk).isSome
  outputPk : (P.decompress candidate.outputPk).isSome

instance (candidate : ScanCandidate) : Decidable (WellFormed P candidate) :=
  decidable_of_iff (candidate.payload.length = 120 ∧ (P.decompress candidate.commit).isSome ∧
      (P.decompress candidate.ephemeralPk).isSome ∧ (P.decompress candidate.outputPk).isSome)
    ⟨fun ⟨payload, commit, ephemeral, output⟩ => ⟨payload, commit, ephemeral, output⟩,
      fun formed => ⟨formed.payload, formed.commit, formed.ephemeralPk, formed.outputPk⟩⟩

theorem checkCandidate_eq_ok {candidate : ScanCandidate} {result : Unit} :
    checkCandidate P candidate = .ok result ↔ WellFormed P candidate := by
  simp only [checkCandidate, Guard.bind_eq_ok, Guard.refuse_eq_ok, not_not, Guard.each_eq_ok,
    List.mem_cons, List.not_mem_nil, or_false, forall_eq_or_imp, forall_eq, Bool.not_eq_true,
    Option.isNone_eq_false_iff]
  constructor
  · rintro ⟨_, payload, commit, ephemeral, output⟩
    exact ⟨payload, commit, ephemeral, output⟩
  · intro formed
    exact ⟨(), formed.payload, formed.commit, formed.ephemeralPk, formed.outputPk⟩

/-- A page's outputs pass exactly when each one lies in the range, decodes and is well
formed, and no commitment repeats. -/
theorem checkLightOutputs_eq_ok {start scannedTo : UInt64} {seen : List Commitment}
    {outputs : List LightOutput} {result : Unit} :
    checkLightOutputs P start scannedTo seen outputs = .ok result ↔
      (∀ output ∈ outputs, (start ≤ output.height ∧ output.height ≤ scannedTo) ∧
        ∃ candidate, output.asCandidate = some candidate ∧ WellFormed P candidate) ∧
      ((outputs.filterMap LightOutput.asCandidate).map ScanCandidate.commit).Nodup ∧
      ∀ candidate ∈ outputs.filterMap LightOutput.asCandidate, candidate.commit ∉ seen := by
  induction outputs generalizing seen with
  | nil => simp [checkLightOutputs]
  | cons output rest ih =>
      simp only [checkLightOutputs, checkLightOutput, Guard.bind_eq_ok, Guard.refuse_eq_ok,
        Guard.need_eq_ok, not_not, checkCandidate_eq_ok, ih, List.mem_cons, forall_eq_or_imp]
      constructor
      · rintro ⟨candidate, ⟨_, inRange, decoded⟩, _, unseen, _, formed, checks, nodup, fresh⟩
        simp only [List.filterMap_cons, decoded, List.map_cons, List.nodup_cons, List.mem_map,
          List.mem_cons, forall_eq_or_imp, not_exists, not_and]
        exact ⟨⟨⟨inRange, candidate, rfl, formed⟩, checks⟩,
          ⟨fun other member same => fresh other member (by simp [same]), nodup⟩, unseen,
          fun other member => fun again => fresh other member (by simp [again])⟩
      · rintro ⟨⟨⟨inRange, candidate, decoded, formed⟩, checks⟩, nodup, fresh⟩
        simp only [List.filterMap_cons, decoded, List.map_cons, List.nodup_cons, List.mem_map,
          List.mem_cons, forall_eq_or_imp, not_exists, not_and] at nodup fresh
        refine ⟨candidate, ⟨(), inRange, decoded⟩, (), fresh.1, (), formed, checks, nodup.2, ?_⟩
        intro other member again
        cases again with
        | inl same => exact nodup.1 other member same
        | inr before => exact fresh.2 other member before

theorem checkPageStart_eq_ok {db : WalletFile} {start : UInt64} {firstHash : Hash256}
    {result : Unit} :
    db.checkPageStart start firstHash = .ok result ↔
      if db.scannedTip.isEmpty then start = db.birthHeight
      else decode32 db.scannedTip = some firstHash := by
  unfold checkPageStart
  split <;> simp

/-- Everything that `checkAnchoredPage` checks. -/
structure AnchoredPage (P : Primitives) (db : WalletFile) (page : ScanPage) (start : UInt64)
    (firstHash lastHash : Hash256) : Prop where
  continues : start = db.scanFrom ∧ start ≤ page.scannedTo
  short : page.scannedTo - start < 1024
  single : start = page.scannedTo → firstHash = lastHash
  rebuilt : db.needsLightRebuild = false
  anchor : if db.scannedTip.isEmpty then start = db.birthHeight
    else decode32 db.scannedTip = some firstHash
  outputs : ∀ output ∈ page.outputs, (start ≤ output.height ∧ output.height ≤ page.scannedTo) ∧
    ∃ candidate, output.asCandidate = some candidate ∧ WellFormed P candidate
  nodup : ((page.outputs.filterMap LightOutput.asCandidate).map ScanCandidate.commit).Nodup
  spent : ∀ text ∈ page.spent, (decode32 text).isSome

theorem checkAnchoredPage_eq_ok {db : WalletFile} {page : ScanPage} {start : UInt64}
    {startHash scannedHash : Text} {lastHash : Hash256} :
    db.checkAnchoredPage P page start startHash scannedHash = .ok lastHash ↔
      ∃ firstHash, decode32 startHash = some firstHash ∧
        decode32 scannedHash = some lastHash ∧
        AnchoredPage P db page start firstHash lastHash := by
  simp only [checkAnchoredPage, Guard.bind_eq_ok, Guard.need_eq_ok, Guard.refuse_eq_ok, not_not,
    checkPageStart_eq_ok, checkLightOutputs_eq_ok, List.all_eq_true, Bool.not_eq_true,
    Except.ok.injEq, ge_iff_le, ne_eq, not_and, Classical.not_imp]
  constructor
  · rintro ⟨firstHash, firstDecoded, last, lastDecoded, _, continues, _, short, _, single, _,
      rebuilt, _, anchor, _, ⟨outputs, nodup, _⟩, _, spent, rfl⟩
    exact ⟨firstHash, firstDecoded, lastDecoded,
      ⟨continues, short, single, rebuilt, anchor, outputs, nodup, spent⟩⟩
  · rintro ⟨firstHash, firstDecoded, lastDecoded, checks⟩
    exact ⟨firstHash, firstDecoded, lastHash, lastDecoded, (), checks.continues, (), checks.short,
      (), checks.single, (), checks.rebuilt, (), checks.anchor, (),
      ⟨checks.outputs, checks.nodup, by simp⟩, (), checks.spent, rfl⟩

end WalletFile

/-! ## Pages over accepted blocks -/

/-- What the ledger asks of an output covers the reader's checks, up to the length of
the payload. -/
theorem Output.wellFormed_iff {ctx : Bytes} {output : Output}
    (checked : LedgerState.checkOutput P ctx output = .ok ()) :
    WalletFile.WellFormed P (.fromOutput output) ↔ output.payload.length = 120 := by
  simp only [LedgerState.checkOutput, Guard.bind_eq_ok, Guard.refuse_eq_ok, not_or,
    Bool.not_eq_true, Option.isNone_eq_false_iff, Bool.not_eq_false] at checked
  obtain ⟨_, ⟨commit, outputPk⟩, _, _, signed⟩ := checked
  constructor
  · intro formed
    exact formed.payload
  · intro payload
    refine ⟨payload, commit, ?_, outputPk⟩
    simp only [verifySenderSig] at signed
    cases decoded : P.decompress output.ephemeralPk with
    | none => simp [decoded] at signed
    | some ke => simp [ScanCandidate.fromOutput, decoded]

namespace Wallet

variable {S : Sealing} {wallet : Wallet P}

/-- An in-memory wallet ingests a page exactly when the page passes its checks. -/
theorem ingestAnchoredScanPage_isOk {page : ScanPage} {start : UInt64}
    {startHash scannedHash : Text} (memory : wallet.storage = .memory) :
    (wallet.ingestAnchoredScanPage S page start startHash scannedHash).1.isOk ↔
      ∃ lastHash, wallet.db.checkAnchoredPage P page start startHash scannedHash =
        .ok lastHash := by
  cases checked : wallet.db.checkAnchoredPage P page start startHash scannedHash with
  | error error =>
      simp [ingestAnchoredScanPage, persist, memory, checked, Except.isOk, Except.toBool]
  | ok lastHash =>
      simp [ingestAnchoredScanPage, persist, memory, checked, Except.isOk, Except.toBool,
        ingestScanPage, save, Except.map]

end Wallet

/-- The blocks served from a height begin at that height and are consecutive. -/
theorem Chain.blocksFrom_consecutive {chain : Chain P} {base : LedgerState P} {ctx : Bytes}
    {start : UInt64} {limit : Nat} {first : Block} {rest : List Block}
    (accepted : base.Accepts ctx chain.firstHeight chain.blocks)
    (served : chain.blocksFrom start.toNat limit = first :: rest) :
    first.height = start ∧ Block.Consecutive (first :: rest) := by
  unfold Chain.blocksFrom at served
  split at served
  · simp at served
  · next kept =>
      constructor
      · have found : chain.blocks[start.toNat - chain.firstHeight]? = some first := by
          have head := congrArg (fun blocks : List Block => blocks[0]?) served
          rw [List.getElem?_take] at head
          split at head <;> simp_all
        have height := accepted.height_eq found
        apply UInt64.toNat_inj.mp
        omega
      · rw [← served]
        exact List.IsChain.take (List.IsChain.drop accepted.consecutive _) _

/-- Served blocks are blocks of the chain. -/
theorem Chain.mem_of_mem_blocksFrom {chain : Chain P} {start limit : Nat} {block : Block}
    (member : block ∈ chain.blocksFrom start limit) : block ∈ chain.blocks := by
  unfold Chain.blocksFrom at member
  split at member
  · simp at member
  · exact List.mem_of_mem_drop (List.mem_of_mem_take member)

theorem Chain.length_blocksFrom_le (chain : Chain P) (start limit : Nat) :
    (chain.blocksFrom start limit).length ≤ limit := by
  unfold Chain.blocksFrom
  split
  · simp
  · exact List.length_take_le _ _

namespace WalletFile

/-- A page over a run that starts where the wallet is passes its checks exactly when
every output of the run is well formed. -/
theorem anchoredPage_scanFeed_iff {db : WalletFile} {first : Block} {rest : List Block}
    (consecutive : Block.Consecutive (first :: rest)) (short : (first :: rest).length ≤ 1024)
    (continues : first.height = db.scanFrom) (rebuilt : db.needsLightRebuild = false)
    (anchor : if db.scannedTip.isEmpty then first.height = db.birthHeight
      else decode32 db.scannedTip = some (first.hash P))
    (onceEach : ((first :: rest).flatMap fun block => block.body.outputCommits).Nodup) :
    AnchoredPage P db (scanFeed first.height (first :: rest)) first.height (first.hash P)
        (((first :: rest).getLast (by simp)).hash P) ↔
      ∀ block ∈ first :: rest, ∀ output ∈ block.body.outputs,
        WellFormed P (.fromOutput output) := by
  have reached : (scanFeed first.height (first :: rest)).scannedTo =
      ((first :: rest).getLast (by simp)).height :=
    consecutive.foldl_max (by omega)
  have lastHeight := consecutive.getLast_height
  constructor
  · intro checks block blockMember output outputMember
    have served : block.lightOutput output ∈ (scanFeed first.height (first :: rest)).outputs :=
      List.mem_flatMap.mpr ⟨block, blockMember, List.mem_map.mpr ⟨output, outputMember, rfl⟩⟩
    obtain ⟨_, candidate, decoded, formed⟩ := checks.outputs _ served
    rw [Block.asCandidate_lightOutput, Option.some.injEq] at decoded
    exact decoded ▸ formed
  · intro formed
    refine ⟨⟨continues, ?_⟩, ?_, ?_, rebuilt, anchor, ?_, ?_, ?_⟩
    · rw [reached, UInt64.le_iff_toNat_le]
      omega
    · rw [reached, UInt64.lt_iff_toNat_lt, UInt64.toNat_sub_of_le _ _
        (UInt64.le_iff_toNat_le.mpr (by omega)), lastHeight]
      simp only [List.length_cons] at short
      simp only [UInt64.reduceToNat]
      omega
    · intro single
      cases rest with
      | nil => rfl
      | cons second rest =>
          rw [reached, ← UInt64.toNat_inj, lastHeight, List.length_cons] at single
          omega
    · intro served member
      obtain ⟨block, blockMember, member⟩ := List.mem_flatMap.mp member
      obtain ⟨output, outputMember, rfl⟩ := List.mem_map.mp member
      refine ⟨?_, _, Block.asCandidate_lightOutput block output,
        formed block blockMember output outputMember⟩
      have inside := consecutive.le_height blockMember
      rw [reached, UInt64.le_iff_toNat_le, UInt64.le_iff_toNat_le, lastHeight]
      simp only [Block.lightOutput]
      omega
    · rw [scanFeed_commits]
      exact onceEach
    · intro text member
      obtain ⟨block, _, member⟩ := List.mem_flatMap.mp member
      obtain ⟨commit, _, rfl⟩ := List.mem_map.mp member
      simp

theorem hasScannedHistory_eq_false {db : WalletFile} :
    db.hasScannedHistory = false ↔
      db.scannedTo ≤ db.birthHeight ∧ db.scannedTip = [] ∧ db.outputs = [] ∧
        db.history = [] ∧ db.reserved = [] := by
  simp [hasScannedHistory, and_assoc]

theorem needsLightRebuild_of_anchor {db : WalletFile} (anchored : db.scannedTip ≠ []) :
    db.needsLightRebuild = false := by
  simp [needsLightRebuild, anchored]

theorem scanFrom_of_le {db : WalletFile} (below : db.scannedTo ≤ db.birthHeight) :
    db.scanFrom = db.birthHeight := by
  apply UInt64.toNat_inj.mp
  rw [scanFrom, UInt64.toNat_max, max_eq_right (UInt64.le_iff_toNat_le.mp below)]

end WalletFile

namespace Wallet

variable {S : Sealing} {wallet : Wallet P}

/-- Take the run of at most 1024 blocks that a node serves from the wallet's position on
a chain the ledger accepted, for a wallet that is anchored there or fresh.  The wallet
ingests the page exactly when every payload of the run has the length that a sender's
wallet seals. -/
theorem ingestAnchoredScanPage_isOk_iff {chain : Chain P} {base : LedgerState P} {limit : Nat}
    {first : Block} {rest : List Block}
    (accepted : base.Accepts chain.proofCtx chain.firstHeight chain.blocks)
    (served : chain.blocksFrom wallet.db.scanFrom.toNat limit = first :: rest)
    (limited : limit ≤ 1024) (memory : wallet.storage = .memory)
    (position : wallet.db.scannedTip = (first.hash P).toHex ∨
      wallet.db.hasScannedHistory = false)
    (onceEach : ((first :: rest).flatMap fun block => block.body.outputCommits).Nodup) :
    (wallet.ingestAnchoredScanPage S (scanFeedSnapshot chain wallet.db.scanFrom limit)
        wallet.db.scanFrom (first.hash P).toHex
        (((first :: rest).getLast (by simp)).hash P).toHex).1.isOk ↔
      ∀ block ∈ first :: rest, ∀ output ∈ block.body.outputs, output.payload.length = 120 := by
  obtain ⟨starts, consecutive⟩ := chain.blocksFrom_consecutive accepted served
  have short : (first :: rest).length ≤ 1024 := by
    have bounded := chain.length_blocksFrom_le wallet.db.scanFrom.toNat limit
    rw [served] at bounded
    omega
  have rebuilt : wallet.db.needsLightRebuild = false := by
    cases position with
    | inl anchored =>
        apply WalletFile.needsLightRebuild_of_anchor
        rw [anchored]
        exact Bytes32.toHex_ne_nil _
    | inr fresh => simp [WalletFile.needsLightRebuild, fresh]
  have anchor : if wallet.db.scannedTip.isEmpty then first.height = wallet.db.birthHeight
      else decode32 wallet.db.scannedTip = some (first.hash P) := by
    cases position with
    | inl anchored =>
        rw [anchored, if_neg (by simpa using Bytes32.toHex_ne_nil _)]
        exact decode32_toHex _
    | inr fresh =>
        obtain ⟨below, unanchored, _⟩ := WalletFile.hasScannedHistory_eq_false.mp fresh
        rw [unanchored, if_pos (by rfl), starts]
        exact WalletFile.scanFrom_of_le below
  have page : scanFeedSnapshot chain wallet.db.scanFrom limit =
      scanFeed first.height (first :: rest) := by
    rw [scanFeedSnapshot, served, starts]
  have checks := WalletFile.anchoredPage_scanFeed_iff (P := P) consecutive short starts rebuilt
    anchor onceEach
  rw [ingestAnchoredScanPage_isOk memory, page, ← starts]
  constructor
  · rintro ⟨lastHash, passed⟩ block blockMember output outputMember
    obtain ⟨firstHash, firstDecoded, lastDecoded, passed⟩ :=
      WalletFile.checkAnchoredPage_eq_ok.mp passed
    rw [decode32_toHex, Option.some.injEq] at firstDecoded lastDecoded
    rw [← firstDecoded, ← lastDecoded] at passed
    have inChain : block ∈ chain.blocks := by
      apply Chain.mem_of_mem_blocksFrom
      rw [served]
      exact blockMember
    exact (Output.wellFormed_iff (accepted.checkOutput block inChain output outputMember)).mp
      (checks.mp passed block blockMember output outputMember)
  · intro payloads
    refine ⟨_, WalletFile.checkAnchoredPage_eq_ok.mpr
      ⟨_, decode32_toHex _, decode32_toHex _, checks.mpr ?_⟩⟩
    intro block blockMember output outputMember
    have inChain : block ∈ chain.blocks := by
      apply Chain.mem_of_mem_blocksFrom
      rw [served]
      exact blockMember
    exact (Output.wellFormed_iff (accepted.checkOutput block inChain output outputMember)).mpr
      (payloads block blockMember output outputMember)

/-- On a block whose payloads are sealed, the page is ingested. -/
theorem ingestAnchoredScanPage_isOk_sealed :
    (Sample.wallet.ingestAnchoredScanPage Sample.sealing
      (scanFeedSnapshot Sample.sealedChain1 Sample.wallet.db.scanFrom 1024)
      Sample.wallet.db.scanFrom (Sample.sealedBlock0.hash Sample.primitives).toHex
      (([Sample.sealedBlock0].getLast (by simp)).hash Sample.primitives).toHex).1.isOk := by
  have payloads : ∀ block ∈ [Sample.sealedBlock0], ∀ output ∈ block.body.outputs,
      output.payload.length = 120 := by
    decide +kernel
  exact (@ingestAnchoredScanPage_isOk_iff _ Sample.sealing Sample.wallet Sample.sealedChain1
    (.forNetwork Sample.primitives .devnet) 1024 Sample.sealedBlock0 [] (by decide +kernel)
    (by decide +kernel) le_rfl rfl (.inr (by decide)) (by decide +kernel)).mpr payloads

/-- The ledger accepts a block with empty payloads, and a fresh wallet refuses it. -/
theorem refuses_accepted_payload :
    (LedgerState.forNetwork Sample.primitives .devnet).Accepts Sample.chain1.proofCtx
        Sample.chain1.firstHeight Sample.chain1.blocks ∧
      Sample.wallet.db.hasScannedHistory = false ∧
      (Sample.wallet.ingestAnchoredScanPage Sample.sealing
        (scanFeedSnapshot Sample.chain1 Sample.wallet.db.scanFrom 1024)
        Sample.wallet.db.scanFrom (Sample.block0.hash Sample.primitives).toHex
        (Sample.block0.hash Sample.primitives).toHex).1 = .error .payloadLength := by
  decide +kernel

end Wallet

end Nightfall
