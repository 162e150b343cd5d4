import Nightfall.Consensus.Replay
import Nightfall.Consensus.Timestamps
import Nightfall.Ledger.Merging
import Nightfall.Wallet.Sample

/-!
# Block templates

A miner aggregates its coinbase with transactions of the pool, learns the roots from a scratch
copy of the ledger and seals the template with a nonce.  The chain that built a template accepts
the sealed block as soon as proof of work, the pin of its height and the clock allow it.
-/

namespace Nightfall

variable {P : Primitives}

/-- A block that lacks its proof of work. -/
structure BlockTemplate where
  header : BlockHeader
  body : BlockBody
  /-- Tip that this template extends. -/
  builtOn : Hash256

/-- Attach a nonce. -/
def BlockTemplate.seal (template : BlockTemplate) (nonce : UInt64) : Block where
  header := { template.header with nonce := nonce }
  body := template.body

namespace Chain

variable (C : TransferCrypto P) (chain : Chain P)

/-- The transactions in the shape that a block at this height has. -/
def templateTxs (height : UInt64) (txs : List Transaction) : List Transaction :=
  if chain.bindingActiveAt height then txs else txs.map Transaction.stripBinding

/-- Fees of the transactions.  They are range-checked from the fork on. -/
def templateFees (height : UInt64) (txs : List Transaction) : Except ConsensusError UInt64 :=
  if chain.bindingActiveAt height then
    Guard.need
      (txs.foldlM
        (fun total tx => tx.checkedTotalFee.bind fun fee => Machine.checkedAdd total fee) 0)
      .feeOutOfRange
  else .ok (txs.foldl (fun total tx => total + tx.totalFee) 0)

/-- Aggregate a coinbase and the transactions into the next block.  The draws `r` and `s` are
those of the coinbase. -/
def buildTemplate (r s : P.Scalar) (miner : Address) (extraTxs : List Transaction)
    (timestampUnix : UInt64) : Except ConsensusError BlockTemplate := do
  let height := chain.nextHeight
  let subsidy := subsidyAt chain.ledger height
  let extraTxs := chain.templateTxs height (extraTxs.take (maxTxsPerBlock - 1))
  let fees ← chain.templateFees height extraTxs
  let coinbaseDarks := if subsidy > 0 then subsidy else fees
  let coinbase ← (buildCoinbase C r s miner coinbaseDarks height chain.proofCtx).mapError .tx
  let coinbase := if chain.bindingActiveAt height then coinbase else coinbase.stripBinding
  let body := BlockBody.aggregate P (coinbase :: extraTxs)
  let trial ← (Guard.toExcept
    (chain.ledger.applyBlock body height subsidy chain.proofCtx)).mapError .ledger
  .ok
    { header :=
        { version := protocolVersion
          height := height
          prevHash := chain.tipHash
          utxoRoot := trial.utxoRoot
          kernelSum := trial.kernelSum
          bodyRoot := body.hash P
          timestampUnix := chain.templateTimestamp timestampUnix
          difficulty := chain.nextDifficulty
          nonce := 0
          rewardDarks := coinbaseDarks }
      body := body
      builtOn := chain.tipHash }

/-- The transactions that the ledger would take one by one, and the ids of the others. -/
def acceptableTxs (txs : List Transaction) : List Transaction × List Text :=
  let acceptable (tx : Transaction) : Bool :=
    (chain.ledger.checkTxAcceptable tx chain.nextHeight chain.proofCtx).isOk
  (txs.filter acceptable,
    (txs.filter fun tx => !acceptable tx).map fun tx => (tx.txid P).toHex)

/-- Build a template, without the transactions that stand in the way.  Each attempt draws its
own coinbase.  Returns the ids of the dropped transactions. -/
def buildTemplateFiltering (draws : Nat → P.Scalar × P.Scalar) (miner : Address)
    (extraTxs : List Transaction) (timestampUnix : UInt64) :
    Except ConsensusError (BlockTemplate × List Text) :=
  let build (attempt : Nat) (txs : List Transaction) :=
    chain.buildTemplate C (draws attempt).1 (draws attempt).2 miner txs timestampUnix
  match build 0 extraTxs with
  | .ok template => .ok (template, [])
  | .error _ =>
      let (keep, dropped) := chain.acceptableTxs extraTxs
      match build 1 keep with
      | .ok template => .ok (template, dropped)
      | .error _ => (build 2 []).map fun template => (template, dropped)

end Chain

/-! ## The shape of a template's body -/

@[simp] theorem Transaction.hasAnyBinding_stripBinding (tx : Transaction) :
    tx.stripBinding.hasAnyBinding = false := by
  simp [hasAnyBinding, stripBinding, Input.hasBinding, Input.stripBinding, TxKernel.stripBinding]

namespace BlockBody

theorem mem_kernels_aggregate {txs : List Transaction} {kernel : TxKernel} :
    kernel ∈ (aggregate P txs).kernels ↔ ∃ tx ∈ txs, kernel ∈ tx.kernels := by
  rw [aggregate_eq, (List.perm_insertionSort _ _).mem_iff, List.mem_flatMap]

theorem mem_inputs_aggregate {txs : List Transaction} {input : Input} :
    input ∈ (aggregate P txs).inputs ↔ ∃ tx ∈ txs, input ∈ tx.inputs := by
  rw [aggregate_eq, (List.perm_insertionSort _ _).mem_iff, List.mem_flatMap]

/-- Transactions without binding fields make a body without them. -/
theorem hasAnyBinding_aggregate {txs : List Transaction}
    (plain : ∀ tx ∈ txs, tx.hasAnyBinding = false) :
    (aggregate P txs).hasAnyBinding = false := by
  simp only [Transaction.hasAnyBinding, Bool.or_eq_false_iff, Option.isSome_eq_false_iff,
    Option.isNone_iff_eq_none, List.any_eq_false] at plain
  simp only [hasAnyBinding, Bool.or_eq_false_iff, Option.isSome_eq_false_iff,
    Option.isNone_iff_eq_none, List.any_eq_false]
  refine ⟨⟨⟨?_, ?_⟩, ?_⟩, ?_⟩
  · rw [← Option.isNone_iff_eq_none, ← Option.isSome_eq_false_iff, aggregate_eq,
      isSome_offsetTotal, List.any_map, List.any_eq_false]
    intro tx listed
    simp [(plain tx listed).1.1.1]
  · rw [← Option.isNone_iff_eq_none, ← Option.isSome_eq_false_iff, aggregate_eq,
      isSome_offsetTotal, List.any_map, List.any_eq_false]
    intro tx listed
    simp [(plain tx listed).1.1.2]
  · intro input member
    obtain ⟨tx, listed, member⟩ := mem_inputs_aggregate.mp member
    exact (plain tx listed).1.2 input member
  · intro kernel member
    obtain ⟨tx, listed, member⟩ := mem_kernels_aggregate.mp member
    exact (plain tx listed).2 kernel member

/-- The only coinbase kernel of a body is the one that is found first. -/
theorem coinbase_unique {body : BlockBody} (one : body.coinbaseKernels = 1)
    {kernel coinbase : TxKernel} (member : kernel ∈ body.kernels)
    (isCoinbase : isCoinbaseKernel kernel = true)
    (found : body.kernels.find? isCoinbaseKernel = some coinbase) : coinbase = kernel := by
  have filtered : (body.kernels.filter isCoinbaseKernel).length = 1 := by
    rw [← List.countP_eq_length_filter]
    exact one
  obtain ⟨only, single⟩ := List.length_eq_one_iff.mp filtered
  have here : kernel ∈ body.kernels.filter isCoinbaseKernel :=
    List.mem_filter.mpr ⟨member, isCoinbase⟩
  have there : coinbase ∈ body.kernels.filter isCoinbaseKernel :=
    List.mem_filter.mpr ⟨List.mem_of_find?_eq_some found, List.find?_some found⟩
  rw [single, List.mem_singleton] at here there
  rw [here, there]

end BlockBody

namespace LedgerState

@[simp] theorem visibleBody_exceedsSizeLimits (state : LedgerState P) (body : BlockBody)
    (height : UInt64) :
    (state.visibleBody body height).exceedsSizeLimits = body.exceedsSizeLimits := by
  unfold visibleBody
  split
  · simp [BlockBody.exceedsSizeLimits, BlockBody.stripBinding]
  · rfl

@[simp] theorem visibleBody_totalFee (state : LedgerState P) (body : BlockBody)
    (height : UInt64) : (state.visibleBody body height).totalFee = body.totalFee := by
  unfold visibleBody
  split <;> simp

end LedgerState

namespace Chain

variable {C : TransferCrypto P} {chain : Chain P}

/-- A coinbase that was built has one kernel, which claims the reward. -/
theorem coinbaseKernel_of_built {r s : P.Scalar} {miner : Address} {reward height : UInt64}
    {ctx : Bytes} {tx : Transaction}
    (built : buildCoinbase C r s miner reward height ctx = .ok tx) :
    ∃ kernel ∈ tx.kernels, isCoinbaseKernel kernel = true ∧ kernel.rewardDarks = reward := by
  simp only [buildCoinbase, Guard.bind_eq_ok, Except.ok.injEq] at built
  obtain ⟨_, _, rfl⟩ := built
  exact ⟨_, List.mem_singleton.mpr rfl, rfl, rfl⟩

/-- What a template that was built consists of. -/
structure Templated (chain : Chain P) (timestampUnix : UInt64) (template : BlockTemplate)
    (trial : LedgerState P) : Prop where
  version : template.header.version = protocolVersion
  height : template.header.height = chain.nextHeight
  prevHash : template.header.prevHash = chain.tipHash
  timestamp : template.header.timestampUnix = chain.templateTimestamp timestampUnix
  difficulty : template.header.difficulty = chain.nextDifficulty
  bodyRoot : template.header.bodyRoot = template.body.hash P
  utxoRoot : template.header.utxoRoot = trial.utxoRoot
  kernelSum : template.header.kernelSum = trial.kernelSum
  plain : chain.bindingActiveAt chain.nextHeight = false → template.body.hasAnyBinding = false
  coinbase : ∃ kernel ∈ template.body.kernels, isCoinbaseKernel kernel = true ∧
    kernel.rewardDarks = template.header.rewardDarks
  applied : chain.ledger.applyBlock template.body chain.nextHeight
    (subsidyAt chain.ledger chain.nextHeight) chain.proofCtx = (.ok (), trial)

theorem templated_of_built {r s : P.Scalar} {miner : Address} {extraTxs : List Transaction}
    {timestampUnix : UInt64} {template : BlockTemplate}
    (built : chain.buildTemplate C r s miner extraTxs timestampUnix = .ok template) :
    ∃ trial, chain.Templated timestampUnix template trial := by
  simp only [buildTemplate, Guard.bind_eq_ok, Guard.mapError_eq_ok, Guard.toExcept_eq_ok,
    Except.ok.injEq] at built
  obtain ⟨fees, _, coinbase, made, trial, applied, rfl⟩ := built
  refine ⟨trial, rfl, rfl, rfl, rfl, rfl, rfl, rfl, rfl, ?_, ?_, applied⟩
  · intro inactive
    apply BlockBody.hasAnyBinding_aggregate
    intro tx listed
    rw [inactive, if_neg Bool.false_ne_true, templateTxs, inactive, if_neg Bool.false_ne_true,
      List.mem_cons, List.mem_map] at listed
    rcases listed with rfl | ⟨other, _, rfl⟩
    · exact Transaction.hasAnyBinding_stripBinding coinbase
    · exact Transaction.hasAnyBinding_stripBinding other
  · obtain ⟨kernel, member, isCoinbase, reward⟩ := coinbaseKernel_of_built made
    cases chain.bindingActiveAt chain.nextHeight with
    | true =>
        exact ⟨kernel, BlockBody.mem_kernels_aggregate.mpr ⟨_, List.mem_cons_self, member⟩,
          isCoinbase, reward⟩
    | false =>
        exact ⟨kernel.stripBinding, BlockBody.mem_kernels_aggregate.mpr
          ⟨_, List.mem_cons_self, List.mem_map_of_mem member⟩, isCoinbase, reward⟩

/-- What the outside world decides about a sealed template: the proof of work, the pin of its
height, the clock, and whether a later time than the median exists at all. -/
structure Admits (chain : Chain P) (block : Block) (nowUnix : UInt64) : Prop where
  work : block.powIsValid P chain.network.powParams = true
  pin : checkPin (P := P) block = .ok ()
  clock : block.header.timestampUnix ≤ Machine.saturatingAdd nowUnix maxFutureDriftSecs
  later : chain.blockCount > 0 → chain.medianTimePast.toNat < 2 ^ 64 - 1

namespace Templated

variable {timestampUnix nowUnix nonce : UInt64} {template : BlockTemplate} {trial : LedgerState P}

theorem storedForm_seal (made : chain.Templated timestampUnix template trial) (nonce : UInt64) :
    chain.storedForm (template.seal nonce) = template.seal nonce := by
  rw [storedForm, BlockTemplate.seal]
  simp only [made.height]
  cases active : chain.bindingActiveAt chain.nextHeight with
  | true => rfl
  | false =>
      simp only [Bool.not_false, if_true, Block.stripBinding]
      rw [BlockBody.stripBinding_of_not_hasAnyBinding (made.plain active)]

/-- The body of a template is valid where it was built. -/
theorem valid (made : chain.Templated timestampUnix template trial)
    (tracks : chain.ledger.utxos.Tracks) :
    ∃ coinbase offset staged, LedgerState.Valid chain.ledger
      (chain.ledger.visibleBody template.body chain.nextHeight) chain.nextHeight
      (subsidyAt chain.ledger chain.nextHeight) chain.proofCtx coinbase offset staged := by
  obtain ⟨coinbase, offset, staged, valid, _⟩ :=
    (LedgerState.applyBlock_ok_iff tracks).mp made.applied
  exact ⟨coinbase, offset, staged, valid⟩

/-- The inputs of a template can be undone. -/
theorem captured (made : chain.Templated timestampUnix template trial)
    (tracks : chain.ledger.utxos.Tracks) :
    chain.ledger.captureUndo template.body = .ok (chain.ledger.undoRecord template.body) := by
  obtain ⟨_, _, _, valid⟩ := made.valid tracks
  refine LedgerState.captureUndo_eq_ok.mpr ⟨?_, ?_, rfl⟩
  · intro commit member
    exact valid.spent_present commit (by rwa [LedgerState.visibleBody_inputCommits])
  · have nodup := valid.spent_nodup
    rwa [LedgerState.visibleBody_inputCommits] at nodup

/-- The header of a template claims what its coinbase is due. -/
theorem rewardDarks_eq (made : chain.Templated timestampUnix template trial)
    (tracks : chain.ledger.utxos.Tracks) :
    template.header.rewardDarks = LedgerState.coinbaseDue template.body
      (subsidyAt chain.ledger chain.nextHeight) := by
  obtain ⟨coinbase, _, _, valid⟩ := made.valid tracks
  obtain ⟨kernel, member, isCoinbase, reward⟩ := made.coinbase
  obtain ⟨visible, shown, claimed⟩ : ∃ visible ∈ (chain.ledger.visibleBody template.body
      chain.nextHeight).kernels, isCoinbaseKernel visible = true ∧
        visible.rewardDarks = kernel.rewardDarks := by
    unfold LedgerState.visibleBody
    split
    · exact ⟨kernel.stripBinding, List.mem_map_of_mem member, isCoinbase, rfl⟩
    · exact ⟨kernel, member, isCoinbase, rfl⟩
  have only := BlockBody.coinbase_unique valid.oneCoinbase shown claimed.1 valid.coinbaseFound
  rw [← reward, ← claimed.2, ← only, valid.reward, LedgerState.coinbaseDue,
    LedgerState.coinbaseDue, LedgerState.visibleBody_totalFee]

/-- What full validation checks of a sealed template before the ledger is touched. -/
theorem checkBlock_seal (made : chain.Templated timestampUnix template trial)
    (tracks : chain.ledger.utxos.Tracks) :
    chain.checkBlock (template.seal nonce) nowUnix true = .ok () ↔
      chain.Admits (template.seal nonce) nowUnix := by
  obtain ⟨_, _, _, valid⟩ := made.valid tracks
  have outputs : template.body.outputs ≠ [] := by
    have some := valid.outputs_ne
    rwa [LedgerState.visibleBody_outputs] at some
  have kernels : template.body.kernels ≠ [] := by
    obtain ⟨kernel, member, _⟩ := made.coinbase
    exact List.ne_nil_of_mem member
  have size : template.body.exceedsSizeLimits = false := by
    have bounded := valid.size
    rwa [LedgerState.visibleBody_exceedsSizeLimits] at bounded
  have later : chain.medianTimePast < template.header.timestampUnix ↔
      chain.medianTimePast.toNat < 2 ^ 64 - 1 := by
    rw [made.timestamp]
    refine ⟨fun below => ?_, medianTimePast_lt_template⟩
    have bound := (chain.templateTimestamp timestampUnix).toNat_lt
    have := UInt64.lt_iff_toNat_lt.mp below
    omega
  rw [checkBlock_eq_ok]
  simp only [BlockTemplate.seal, made.version, made.height, made.prevHash, made.difficulty,
    made.bodyRoot, made.rewardDarks_eq tracks, later, size, outputs, kernels,
    ne_eq, not_false_eq_true, true_and, true_implies, and_true]
  constructor
  · rintro ⟨pin, clock, late, work⟩
    exact ⟨work, pin, clock, late⟩
  · rintro ⟨work, pin, clock, late⟩
    exact ⟨pin, clock, late, work⟩

/-- Sealed, a template extends the chain that built it, unless work, pin or clock forbid it. -/
theorem applyBlock_seal (made : chain.Templated timestampUnix template trial)
    (tracks : chain.ledger.utxos.Tracks) :
    chain.applyBlock (template.seal nonce) nowUnix = (.ok (), chain.extend (template.seal nonce)
        trial (chain.ledger.undoRecord template.body)) ∨
      ¬chain.Admits (template.seal nonce) nowUnix := by
  rw [or_iff_not_imp_right, not_not]
  intro admits
  have applied : chain.ledger.applyBlock (template.seal nonce).body
      (template.seal nonce).header.height
      (subsidyAt chain.ledger (template.seal nonce).header.height) chain.proofCtx =
        (.ok (), trial) := by
    simp only [BlockTemplate.seal, made.height]
    exact made.applied
  rw [applyBlock_eq tracks, made.storedForm_seal, settle_eq_ok]
  refine ⟨trial, _, verdict_eq_ok.mpr ?_, rfl⟩
  exact ⟨(made.checkBlock_seal tracks).mpr admits, made.captured tracks, applied,
    made.utxoRoot.symm, made.kernelSum.symm⟩

theorem admits_of_applyBlock (made : chain.Templated timestampUnix template trial)
    (tracks : chain.ledger.utxos.Tracks)
    (accepted : (chain.applyBlock (template.seal nonce) nowUnix).1 = .ok ()) :
    chain.Admits (template.seal nonce) nowUnix := by
  rw [applyBlock_eq tracks, made.storedForm_seal] at accepted
  obtain ⟨_, undo, judged, _⟩ := settle_eq_ok.mp (Prod.ext accepted rfl)
  exact (made.checkBlock_seal tracks).mp (verdict_eq_ok.mp judged).checked

end Templated

/-- A template that filtering returns was built by one of its attempts, and what it drops the
ledger refuses by itself. -/
theorem of_buildTemplateFiltering {draws : Nat → P.Scalar × P.Scalar} {miner : Address}
    {extraTxs : List Transaction} {timestampUnix : UInt64} {template : BlockTemplate}
    {dropped : List Text}
    (built : chain.buildTemplateFiltering C draws miner extraTxs timestampUnix =
      .ok (template, dropped)) :
    (∃ attempt txs, chain.buildTemplate C (draws attempt).1 (draws attempt).2 miner txs
      timestampUnix = .ok template) ∧
      ∀ id ∈ dropped, ∃ tx ∈ extraTxs, id = (tx.txid P).toHex ∧
        chain.precheckTxTyped tx ≠ .ok () := by
  have refused : ∀ id ∈ (chain.acceptableTxs extraTxs).2, ∃ tx ∈ extraTxs,
      id = (tx.txid P).toHex ∧ chain.precheckTxTyped tx ≠ .ok () := by
    intro id member
    simp only [acceptableTxs, List.mem_map, List.mem_filter] at member
    obtain ⟨tx, ⟨listed, fails⟩, rfl⟩ := member
    refine ⟨tx, listed, rfl, fun accepted => ?_⟩
    rw [precheckTxTyped] at accepted
    rw [accepted] at fails
    exact Bool.false_ne_true fails
  simp only [buildTemplateFiltering] at built
  split at built
  · next first made =>
      obtain ⟨rfl, rfl⟩ := Prod.mk.inj (Except.ok.inj built)
      exact ⟨⟨0, extraTxs, made⟩, fun id member => nomatch member⟩
  · split at built
    · next second made =>
        obtain ⟨rfl, rfl⟩ := Prod.mk.inj (Except.ok.inj built)
        exact ⟨⟨1, _, made⟩, refused⟩
    · cases made : chain.buildTemplate C (draws 2).1 (draws 2).2 miner [] timestampUnix with
      | error error =>
          rw [made] at built
          cases built
      | ok last =>
          rw [made] at built
          obtain ⟨rfl, rfl⟩ := Prod.mk.inj (Except.ok.inj built)
          exact ⟨⟨2, [], made⟩, refused⟩

end Chain

namespace Sample

end Sample

end Nightfall
