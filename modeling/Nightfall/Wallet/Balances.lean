import Nightfall.Wallet.BuiltTransfer

/-!
# Built transactions balance

Built transfers pass the stateless rules, and their aggregate with a coinbase passes the
balances of a block, exactly when no sum of amounts is distorted by wrapping around and the
kernels keep an excess.
-/

namespace Nightfall

variable {P : Primitives}

/-! ## One transaction -/

variable (P) in
/-- What `verifyStatelessRules` asks of a transaction, except for the range of its fee. -/
structure Transaction.Passes (tx : Transaction) (ctx : Bytes) (binding : Bool) : Prop where
  shape : tx.checkShape P = .ok ()
  bound : binding = true → tx.hasFullBinding = true
  plain : binding = false → tx.kernelOffset = none
  keys : keyBalance P tx.inputs tx.outputs tx.kernels tx.stealthOffset = .ok ()
  balance : tx.verifyValueBalance P ctx = .ok ()

theorem Transaction.verifyStatelessRules_eq_ok {tx : Transaction} {ctx : Bytes} {binding : Bool}
    (full : tx.hasFullBinding = true) :
    tx.verifyStatelessRules P ctx binding = .ok () ↔
      tx.checkedTotalFee.isSome ∧ tx.Passes P ctx binding := by
  have stealth (keys : keyBalance P tx.inputs tx.outputs tx.kernels tx.stealthOffset = .ok ()) :
      ∀ kernel ∈ tx.kernels, (kernel.verifiedStealthExcess P).isNone = false := by
    intro kernel member
    have verified := (tx.contents.keyBalance_eq_ok.mp keys).1.kernels kernel member
    unfold stealthExcessPoint at verified
    cases found : kernel.verifiedStealthExcess P with
    | none => rw [found] at verified; contradiction
    | some point => rfl
  simp only [Transaction.verifyStatelessRules, Guard.bind_eq_ok, Guard.refuse_eq_ok,
    Guard.onlyIf_eq_ok, Guard.each_eq_ok, full, Bool.or_true, Bool.not_true, Bool.false_eq_true,
    and_false, not_false_eq_true, forall_const, Bool.not_eq_true, Option.isNone_eq_false_iff,
    Bool.not_eq_eq_eq_not]
  constructor
  · rintro ⟨_, shape, _, fee, _, plain, _, _, _, ⟨_, _, keys⟩, balance⟩
    refine ⟨fee, shape, fun _ => full, fun below => ?_, keys, balance⟩
    simpa [below] using plain
  · rintro ⟨fee, passes⟩
    refine ⟨(), passes.shape, (), fee, (), ?_, (), trivial, (),
      ⟨(), fun kernel member => ?_, passes.keys⟩, passes.balance⟩
    · rintro ⟨below, present⟩
      rw [passes.plain (by simpa using below)] at present
      contradiction
    · have found := stealth passes.keys kernel member
      simpa using found

/-- A built transfer passes exactly when its change fits and its kernel has an excess. -/
theorem BuiltTransfer.passes_iff {request : TransferRequest P} {ctx : Bytes} {tx : Transaction}
    (built : BuiltTransfer request ctx tx) {binding : Bool}
    (allowed : binding = false → tx.kernelOffset = none) :
    tx.Passes P ctx binding ↔ request.ChangeFits ∧ request.BlindsRemain := by
  have unwrapped : tx.contents.wrapped = 0 := by
    obtain ⟨kernel, kernels, -, fee, reward⟩ := built.kernels
    have single : tx.contents.fees = [kernel.feeDarks] ∧
        tx.contents.rewards = [kernel.rewardDarks] := by
      simp [BlockBody.fees, BlockBody.rewards, Transaction.contents, kernels]
    have below (amount : UInt64) : wraps [amount] = 0 :=
      Nat.div_eq_of_lt (by simpa [exactTotal] using amount.toNat_lt)
    rw [BlockBody.wrapped, single.1, single.2, below, below]
    rfl
  have balanced : tx.contents.surplus P = (2 ^ 64 * tx.contents.wrapped) • P.generatorG ↔
      request.ChangeFits := by
    rw [unwrapped, mul_zero, zero_smul, built.surplus, zsmul_wraps_eq_zero built.few,
      built.changeFits]
  constructor
  · intro passes
    obtain ⟨-, signed, -, equal⟩ := Transaction.verifyValueBalance_eq_ok.mp passes.balance
    exact ⟨balanced.mp equal, built.signed.mp signed⟩
  · rintro ⟨fits, remain⟩
    exact {
      shape := built.shape
      bound := fun _ => built.fullBinding
      plain := allowed
      keys := tx.contents.keyBalance_eq_ok.mpr ⟨built.keysDecode, built.keySurplus⟩
      balance := Transaction.verifyValueBalance_eq_ok.mpr
        ⟨built.outputs, built.signed.mpr remain, built.decodes, balanced.mpr fits⟩ }

/-! ## The coinbase and the aggregate -/

/-- What a built coinbase satisfies. -/
structure BuiltCoinbase (P : Primitives) (rewardDarks : UInt64) (tx : Transaction) : Prop where
  output : ∃ output, tx.outputs = [output] ∧ output.features = .coinbase ∧
    ∃ kernel, tx.kernels = [kernel] ∧ kernel.feature = .coinbase ∧ kernel.feeDarks = 0 ∧
      kernel.rewardDarks = rewardDarks ∧
      ∃ opened, Commitment.point P output.commit = some opened ∧
        Commitment.point P kernel.excess = some (opened - commitPublicValue P rewardDarks)
  decodes : tx.contents.Decodes P
  keysDecode : tx.contents.KeysDecode P
  surplus : tx.contents.surplus P = 0
  keySurplus : tx.contents.keySurplus P = 0

theorem built_of_buildCoinbase {C : TransferCrypto P} (sound : C.Sound) {r s : P.Scalar}
    {miner : Address} {rewardDarks height : UInt64} {ctx : Bytes} {tx : Transaction}
    (built : buildCoinbase C r s miner rewardDarks height ctx = .ok tx) :
    BuiltCoinbase P rewardDarks tx := by
  simp only [buildCoinbase, Guard.bind_eq_ok, Guard.need_eq_ok, Except.ok.injEq] at built
  obtain ⟨⟨output, secrets⟩, created, rfl⟩ := built
  have spec := createOutput_spec sound created
  obtain ⟨excess, stealth, -⟩ := builtKernel_spec sound .coinbase 0 rewardDarks height
    secrets.blind (-secrets.ephemeral - s)
  have commit : output.commit = commitNew P rewardDarks secrets.blind := spec.commit
  have opened : Commitment.point P output.commit =
      some ((rewardDarks.toNat : P.Scalar) • P.generatorG + secrets.blind • P.generatorH) := by
    rw [commit, commitNew, Commitment.point_fromPoint]
  have key : ephemeralPoint P output = .ok (secrets.ephemeral • P.generatorG) := by
    rw [spec.ephemeralPoint_isOk, spec.ephemeral]
  have absent : OffsetDecodes P none := by
    rintro _ ⟨⟩
  refine ⟨⟨output, rfl, spec.features, _, rfl, rfl, rfl, rfl, _, opened, ?_⟩, ⟨?_, ?_, ?_, absent⟩,
    ⟨?_, ?_, ?_, offsetDecodes_toBytes _⟩, ?_, ?_⟩
  · rw [excess, commitPublicValue, add_sub_cancel_left]
  · simp [BlockBody.inputCommits, Transaction.contents]
  · simp [BlockBody.outputCommits, Transaction.contents, opened]
  · simp [BlockBody.excesses, Transaction.contents, excess]
  · simp [Transaction.contents]
  · intro other member
    obtain rfl := List.mem_singleton.mp member
    rw [key]
    rfl
  · intro other member
    obtain rfl := List.mem_singleton.mp member
    rw [stealth]
    rfl
  · simp only [BlockBody.surplus, BlockBody.outputCommits, BlockBody.inputCommits,
      BlockBody.excesses, BlockBody.fees, BlockBody.rewards, Transaction.contents, List.map_cons,
      List.map_nil, List.sum_singleton, List.sum_nil, Commitment.pointOrZero, opened,
      Commitment.point_fromPoint, Option.getD_some, offsetScalar_none, zero_smul, exactTotal, attachStealth, buildKernel,
      UInt64.toNat_zero, Nat.cast_zero, Nat.cast_smul_eq_nsmul]
    abel
  · simp only [BlockBody.keySurplus, Transaction.contents, List.map_cons, List.map_nil,
      List.sum_singleton, List.sum_nil, key, stealth, Guard.valueOrZero_ok, offsetScalar_toBytes,
      sub_smul, neg_smul]
    abel

/-- The only element with a property is the one that a search finds. -/
theorem find?_eq_some_of_unique {α : Type*} {holds : α → Bool} {list : List α} {element : α}
    (member : element ∈ list) (found : holds element = true)
    (unique : ∀ other ∈ list, holds other = true → other = element) :
    list.find? holds = some element := by
  cases searched : list.find? holds with
  | none => exact absurd found (List.find?_eq_none.mp searched element member)
  | some other =>
      rw [unique other (List.mem_of_find?_eq_some searched) (List.find?_some searched)]

theorem forall_mem_of_forall₂ {α β : Type*} {rel : α → β → Prop} {holds : β → Prop}
    {left : List α} {right : List β} (related : List.Forall₂ rel left right)
    (each : ∀ one other, rel one other → holds other) : ∀ other ∈ right, holds other := by
  induction related with
  | nil => simp
  | cons first _ ih =>
      intro other member
      rcases List.mem_cons.mp member with rfl | later
      · exact each _ _ first
      · exact ih other later

section Aggregate

variable {rewardDarks : UInt64} {coinbase : Transaction} {requests : List (TransferRequest P)}
  {txs all : List Transaction} {ctx : Bytes}

abbrev BuiltTransfers (ctx : Bytes) : List (TransferRequest P) → List Transaction → Prop :=
  List.Forall₂ fun request tx => BuiltTransfer request ctx tx

theorem BuiltTransfers.plain (transfers : BuiltTransfers ctx requests txs) :
    ∀ tx ∈ txs, (∀ output ∈ tx.outputs, output.features = .plain) ∧
      ∀ kernel ∈ tx.kernels, kernel.feature = .plain := by
  refine forall_mem_of_forall₂ transfers ?_
  intro request tx built
  obtain ⟨kernel, kernels, feature, -⟩ := built.kernels
  refine ⟨built.plain, ?_⟩
  intro other member
  rw [kernels, List.mem_singleton] at member
  rw [member, feature]

/-- The coinbase kernel is found and its output opens to the reward. -/
theorem aggregate_coinbase (built : BuiltCoinbase P rewardDarks coinbase)
    (transfers : BuiltTransfers ctx requests txs) (perm : all.Perm (coinbase :: txs)) :
    ∃ kernel, (BlockBody.aggregate P all).kernels.find? isCoinbaseKernel = some kernel ∧
      LedgerState.checkCoinbaseOutput P (BlockBody.aggregate P all) kernel true = .ok () := by
  obtain ⟨output, outputs, flagged, kernel, kernels, feature, -, reward, opened, decoded, opens⟩ :=
    built.output
  have outputSet : (BlockBody.aggregate P all).outputs.Perm
      (output :: txs.flatMap Transaction.outputs) := by
    rw [BlockBody.aggregate_eq]
    have union := perm.flatMap_right Transaction.outputs
    rw [List.flatMap_cons, outputs, List.singleton_append] at union
    exact (List.perm_insertionSort _ _).trans union
  have kernelSet : (BlockBody.aggregate P all).kernels.Perm
      (kernel :: txs.flatMap Transaction.kernels) := by
    rw [BlockBody.aggregate_eq]
    have union := perm.flatMap_right Transaction.kernels
    rw [List.flatMap_cons, kernels, List.singleton_append] at union
    exact (List.perm_insertionSort _ _).trans union
  have plainOutputs : ∀ other ∈ txs.flatMap Transaction.outputs,
      ¬other.features.isCoinbase = true := by
    intro other member
    obtain ⟨tx, inTxs, inOutputs⟩ := List.mem_flatMap.mp member
    rw [(transfers.plain tx inTxs).1 other inOutputs]
    decide
  have plainKernels : ∀ other ∈ txs.flatMap Transaction.kernels,
      ¬isCoinbaseKernel other = true := by
    intro other member
    obtain ⟨tx, inTxs, inKernels⟩ := List.mem_flatMap.mp member
    rw [isCoinbaseKernel, (transfers.plain tx inTxs).2 other inKernels]
    decide
  have isFlagged : output.features.isCoinbase = true := by
    rw [flagged]
    rfl
  have isCoinbase : isCoinbaseKernel kernel = true := by
    rw [isCoinbaseKernel, feature]
    rfl
  have foundKernel : (BlockBody.aggregate P all).kernels.find? isCoinbaseKernel = some kernel := by
    apply find?_eq_some_of_unique (kernelSet.mem_iff.mpr (by simp)) isCoinbase
    intro other member found
    rcases List.mem_cons.mp (kernelSet.mem_iff.mp member) with same | later
    · exact same
    · exact absurd found (plainKernels other later)
  have foundOutput : (BlockBody.aggregate P all).outputs.find?
      (fun output => output.features.isCoinbase) = some output := by
    apply find?_eq_some_of_unique (outputSet.mem_iff.mpr (by simp)) isFlagged
    intro other member found
    rcases List.mem_cons.mp (outputSet.mem_iff.mp member) with same | later
    · exact same
    · exact absurd found (plainOutputs other later)
  have count : (BlockBody.aggregate P all).outputs.countP
      (fun output => output.features.isCoinbase) = 1 := by
    rw [outputSet.countP_eq, List.countP_cons, if_pos isFlagged,
      List.countP_eq_zero.mpr plainOutputs]
  refine ⟨kernel, foundKernel, ?_⟩
  simp only [LedgerState.checkCoinbaseOutput, Guard.bind_eq_ok, Guard.refuse_eq_ok,
    Guard.onlyIf_eq_ok, Guard.need_eq_ok, not_not, forall_const, count, foundOutput,
    Option.bind_some, decoded]
  exact ⟨(), trivial, opened, rfl, by rw [opens, reward]⟩

/-- The exact fees of the transactions are those of the requests. -/
theorem BuiltTransfers.fees (transfers : BuiltTransfers ctx requests txs) :
    (txs.map fun tx => exactTotal tx.contents.fees).sum =
      exactTotal (requests.map TransferRequest.feeDarks) ∧
    (txs.map fun tx => exactTotal tx.contents.rewards).sum = 0 := by
  induction transfers with
  | nil => exact ⟨rfl, rfl⟩
  | @cons request tx _ _ built _ ih =>
      obtain ⟨kernel, kernels, -, fee, reward⟩ := built.kernels
      have fees : exactTotal tx.contents.fees = request.feeDarks.toNat := by
        simp [exactTotal, BlockBody.fees, Transaction.contents, kernels, fee]
      have rewards : exactTotal tx.contents.rewards = 0 := by
        simp [exactTotal, BlockBody.rewards, Transaction.contents, kernels, reward]
      simp only [List.map_cons, List.sum_cons, ih.1, ih.2, fees, rewards]
      exact ⟨rfl, trivial⟩

theorem BuiltTransfers.surplus_sum (transfers : BuiltTransfers ctx requests txs)
    (fits : ∀ request ∈ requests, request.ChangeFits) :
    (txs.map fun tx => tx.contents.surplus P).sum = 0 := by
  induction transfers with
  | nil => rfl
  | cons built _ ih =>
      have zero := built.changeFits.mp (fits _ (by simp))
      rw [List.map_cons, List.sum_cons, ih fun request member => fits request (by simp [member]),
        built.surplus, zero, mul_zero, zero_smul, add_zero]

theorem BuiltTransfers.keySurplus_sum (transfers : BuiltTransfers ctx requests txs) :
    (txs.map fun tx => tx.contents.keySurplus P).sum = 0 := by
  induction transfers with
  | nil => rfl
  | cons built _ ih => rw [List.map_cons, List.sum_cons, ih, built.keySurplus, add_zero]

/-- The aggregate passes the key balance. -/
theorem aggregate_keyBalance (built : BuiltCoinbase P rewardDarks coinbase)
    (transfers : BuiltTransfers ctx requests txs) (perm : all.Perm (coinbase :: txs)) :
    keyBalance P (BlockBody.aggregate P all).inputs (BlockBody.aggregate P all).outputs
      (BlockBody.aggregate P all).kernels (BlockBody.aggregate P all).stealthOffset = .ok () := by
  rw [BlockBody.keyBalance_eq_ok]
  refine ⟨BlockBody.keysDecode_aggregate _ fun tx member => ?_, ?_⟩
  · rcases List.mem_cons.mp (perm.mem_iff.mp member) with rfl | inTxs
    · exact built.keysDecode
    · have each := forall_mem_of_forall₂ transfers fun _ _ (transfer : BuiltTransfer _ _ _) =>
        transfer.keysDecode
      exact each tx inTxs
  · rw [BlockBody.keySurplus_aggregate, (perm.map _).sum_eq, List.map_cons, List.sum_cons,
      built.keySurplus, transfers.keySurplus_sum, add_zero]

/-- Where every change fits, the aggregate passes the value balance exactly when the fees do
not wrap around. -/
theorem aggregate_balance_iff (built : BuiltCoinbase P rewardDarks coinbase)
    (transfers : BuiltTransfers ctx requests txs) (perm : all.Perm (coinbase :: txs))
    (few : requests.length < 2 ^ 64) (fits : ∀ request ∈ requests, request.ChangeFits) :
    (∃ offset, LedgerState.checkBalance P (BlockBody.aggregate P all) = .ok offset) ↔
      exactTotal (requests.map TransferRequest.feeDarks) < 2 ^ 64 := by
  have decodes : (BlockBody.aggregate P all).Decodes P := by
    apply BlockBody.decodes_aggregate
    intro tx member
    rcases List.mem_cons.mp (perm.mem_iff.mp member) with rfl | inTxs
    · exact built.decodes
    · have each := forall_mem_of_forall₂ transfers fun _ _ (transfer : BuiltTransfer _ _ _) =>
        transfer.decodes
      exact each tx inTxs
  have surplus : (BlockBody.aggregate P all).surplus P = 0 := by
    rw [BlockBody.surplus_aggregate, (perm.map _).sum_eq, List.map_cons, List.sum_cons,
      built.surplus, transfers.surplus_sum fits, add_zero]
  obtain ⟨_, _, _, kernel, kernels, _, fee, reward, _⟩ := built.output
  have fees : exactTotal (BlockBody.aggregate P all).fees =
      exactTotal (requests.map TransferRequest.feeDarks) := by
    have single : exactTotal coinbase.contents.fees = 0 := by
      simp [exactTotal, BlockBody.fees, Transaction.contents, kernels, fee]
    rw [BlockBody.exactTotal_fees_aggregate, (perm.map _).sum_eq, List.map_cons, List.sum_cons,
      single, transfers.fees.1, Nat.zero_add]
  have rewards : wraps (BlockBody.aggregate P all).rewards = 0 := by
    have single : exactTotal coinbase.contents.rewards = rewardDarks.toNat := by
      simp [exactTotal, BlockBody.rewards, Transaction.contents, kernels, reward]
    rw [wraps, BlockBody.exactTotal_rewards_aggregate, (perm.map _).sum_eq, List.map_cons,
      List.sum_cons, single, transfers.fees.2, Nat.add_zero]
    exact Nat.div_eq_of_lt rewardDarks.toNat_lt
  have wrapped : (BlockBody.aggregate P all).wrapped =
      wraps (requests.map TransferRequest.feeDarks) := by
    rw [BlockBody.wrapped, rewards, wraps, wraps, fees, Nat.cast_zero, sub_zero]
  have bound := wraps_le (requests.map TransferRequest.feeDarks)
  rw [List.length_map] at bound
  have small : |(wraps (requests.map TransferRequest.feeDarks) : ℤ)| < 2 ^ 64 := by
    rw [abs_lt]
    omega
  rw [BlockBody.checkBalance_eq_ok, surplus, wrapped, eq_comm (a := (0 : P.Point)),
    zsmul_wraps_eq_zero small, Nat.cast_eq_zero, wraps, Nat.div_eq_zero_iff]
  constructor
  · rintro ⟨-, zero | below⟩
    · contradiction
    · exact below
  · intro below
    exact ⟨decodes, .inr below⟩

end Aggregate

/-! ## Sample requests -/

namespace Sample

/-- A prover whose signatures and proofs the sample verifiers accept. -/
def prover : TransferCrypto primitives where
  sign _ _ _ := ⟨0, 0⟩
  rangeProve value blind _ := some ([], commitNew primitives value blind)
  encrypt _ _ plain := some plain

theorem prover_sound : prover.Sound where
  signs _ _ _ := rfl
  proves := by
    intro value blind ctx proof commit proved
    obtain ⟨rfl, rfl⟩ := Prod.mk.inj (Option.some.inj proved)
    exact ⟨rfl, rfl⟩

def recipient : Address := ⟨compress 1, compress 2⟩

/-- A coin of ten darks, paid out in these amounts. -/
def requestOf (amounts : List UInt64) (feeDarks : UInt64) : TransferRequest primitives where
  draws := {
    ephemeral := fun index => index + 1
    entropy := fun _ => 0
    kernelOffset := (11 : Nat)
    stealthOffset := (5 : Nat) }
  spendables := [⟨commitNew primitives 10 (3 : Nat), 10, (3 : Nat), (4 : Nat)⟩]
  payments := amounts.map fun amount => ⟨recipient, amount, []⟩
  feeDarks := feeDarks
  changeTo := recipient
  lockHeight := 0
  kernelOffset := true

theorem requestOf_opens (amounts : List UInt64) (feeDarks : UInt64) :
    (requestOf amounts feeDarks).Opens := by
  intro coin member
  obtain rfl := List.mem_singleton.mp member
  rfl

def txOf (amounts : List UInt64) (feeDarks : UInt64) : Transaction :=
  match (requestOf amounts feeDarks).build prover [] with
  | .ok tx => tx
  | .error _ => ⟨0, [], [], [], none, none⟩

def coinbaseOf (rewardDarks : UInt64) : Transaction :=
  match buildCoinbase prover 21 22 recipient rewardDarks 1 [] with
  | .ok tx => tx
  | .error _ => ⟨0, [], [], [], none, none⟩

end Sample

section Aggregate

variable {rewardDarks : UInt64} {coinbase : Transaction} {requests : List (TransferRequest P)}
  {txs all : List Transaction} {ctx : Bytes}

/-- Built transactions pass under both rule sets, and their aggregate with a coinbase passes
the checks of a block, exactly when every change fits, no blinding factors cancel and the fees
do not wrap around. -/
theorem built_balance_iff {C : TransferCrypto P} (sound : C.Sound) {r s : P.Scalar}
    {miner : Address} {height : UInt64} (opens : ∀ request ∈ requests, request.Opens)
    (built : List.Forall₂ (fun request tx => request.build C ctx = .ok tx) requests txs)
    (minted : buildCoinbase C r s miner rewardDarks height ctx = .ok coinbase)
    (few : requests.length < 2 ^ 64) (perm : all.Perm (coinbase :: txs)) :
    let body := BlockBody.aggregate P all
    ((∀ tx ∈ txs, tx.Passes P ctx true ∧ (tx.kernelOffset = none → tx.Passes P ctx false)) ∧
      (∃ offset, LedgerState.checkBalance P body = .ok offset) ∧
      keyBalance P body.inputs body.outputs body.kernels body.stealthOffset = .ok () ∧
      ∃ kernel, body.kernels.find? isCoinbaseKernel = some kernel ∧
        LedgerState.checkCoinbaseOutput P body kernel true = .ok ()) ↔
    (∀ request ∈ requests, request.ChangeFits ∧ request.BlindsRemain) ∧
      (requests.map fun request => request.feeDarks.toNat).sum < 2 ^ 64 := by
  intro body
  have transfers : BuiltTransfers ctx requests txs := by
    clear few perm body
    induction built with
    | nil => exact .nil
    | cons first _ ih =>
        exact .cons (built_of_build sound (opens _ (by simp)) first)
          (ih fun request member => opens request (by simp [member]))
  have coinbaseSpec := built_of_buildCoinbase sound minted
  have each : (∀ tx ∈ txs, tx.Passes P ctx true ∧ (tx.kernelOffset = none → tx.Passes P ctx false)) ↔
      ∀ request ∈ requests, request.ChangeFits ∧ request.BlindsRemain := by
    clear few perm body built opens
    induction transfers with
    | nil => simp
    | cons first _ ih =>
        have bound := @BuiltTransfer.passes_iff P _ ctx _ first true (by simp)
        have plain := fun absent => @BuiltTransfer.passes_iff P _ ctx _ first false fun _ => absent
        rw [List.forall_mem_cons, List.forall_mem_cons, ih, bound]
        constructor
        · rintro ⟨⟨fine, _⟩, rest⟩
          exact ⟨fine, rest⟩
        · rintro ⟨fine, rest⟩
          exact ⟨⟨fine, fun absent => (plain absent).mpr fine⟩, rest⟩
  have exact : (requests.map fun request => request.feeDarks.toNat).sum =
      exactTotal (requests.map TransferRequest.feeDarks) := by
    rw [exactTotal, List.map_map]
    rfl
  rw [each, exact]
  constructor
  · rintro ⟨conditions, balance, -⟩
    exact ⟨conditions, (aggregate_balance_iff coinbaseSpec transfers perm few fun request member =>
      (conditions request member).1).mp balance⟩
  · rintro ⟨conditions, below⟩
    exact ⟨conditions, (aggregate_balance_iff coinbaseSpec transfers perm few fun request member =>
      (conditions request member).1).mpr below, aggregate_keyBalance coinbaseSpec transfers perm,
      aggregate_coinbase coinbaseSpec transfers perm⟩

end Aggregate

open Sample in
/-- The hypotheses and the condition hold of a payment of four darks with a fee of one. -/
theorem built_balance_iff_payment :
    (txOf [4] 1).Passes primitives [] true := by
  have built : (requestOf [4] 1).build prover [] = .ok (txOf [4] 1) := by decide +kernel
  have minted : buildCoinbase prover 21 22 recipient 600 1 [] = .ok (coinbaseOf 600) := by
    decide +kernel
  have opens : ∀ request ∈ [requestOf [4] 1], request.Opens := by
    intro request member
    obtain rfl := List.mem_singleton.mp member
    exact requestOf_opens _ _
  have remain : (requestOf [4] 1).BlindsRemain := by
    unfold TransferRequest.BlindsRemain
    decide +kernel
  have conditions : ∀ request ∈ [requestOf [4] 1], request.ChangeFits ∧ request.BlindsRemain := by
    intro request member
    obtain rfl := List.mem_singleton.mp member
    exact ⟨⟨by decide, by decide⟩, remain⟩
  exact (((built_balance_iff prover_sound opens (.cons built .nil) minted (by decide) (.refl _)).mpr
    ⟨conditions, by decide⟩).1 _ (by simp)).1

open Sample in
/-- Two payments of `2 ^ 63` darks wrap around to nothing: a coin of ten darks pays for both. -/
theorem built_transfer_unbalanced :
    prover.Sound ∧ (requestOf [2 ^ 63, 2 ^ 63] 0).Opens ∧
      (requestOf [2 ^ 63, 2 ^ 63] 0).build prover [] = .ok (txOf [2 ^ 63, 2 ^ 63] 0) ∧
      (txOf [2 ^ 63, 2 ^ 63] 0).verifyValueBalance primitives [] ≠ .ok () :=
  ⟨prover_sound, requestOf_opens _ _, by decide +kernel, by decide +kernel⟩

end Nightfall
