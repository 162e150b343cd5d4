import Nightfall.Wallet.Builder
import Nightfall.Ledger.Balance

/-!
# What a built transfer satisfies

The builder chooses excess, offset and stealth excess so that both balances close.  The key
balance always does; the value balance is off by the wraps that the sums of payments and
coins do not share.
-/

namespace Nightfall

variable {P : Primitives}

/-! ## Assumptions on the prover side -/

/-- The verifiers accept what the builder signs and proves, and a proof comes with the
commitment to its value. -/
structure TransferCrypto.Sound (C : TransferCrypto P) : Prop where
  signs : ∀ (secret : P.Scalar) (generator : P.Point) (message : Bytes),
    P.schnorrVerify (secret • generator) generator message
      (C.sign secret generator message) = true
  proves : ∀ {value : UInt64} {blind : P.Scalar} {ctx proof : Bytes} {commit : Commitment},
    C.rangeProve value blind ctx = some (proof, commit) →
      commit = commitNew P value blind ∧ P.rangeVerify proof commit ctx = true

/-! ## The parts of a transaction -/

section Parts

variable {C : TransferCrypto P}

@[simp] theorem pointOrZero_commitNew (value : UInt64) (blind : P.Scalar) :
    Commitment.pointOrZero P (commitNew P value blind) =
      (value.toNat : P.Scalar) • P.generatorG + blind • P.generatorH := by
  simp [Commitment.pointOrZero, commitNew]

@[simp] theorem isSome_point_commitNew (value : UInt64) (blind : P.Scalar) :
    (Commitment.point P (commitNew P value blind)).isSome := by
  simp [commitNew]

variable (P) in
/-- The blinding factor of an output to an address under an ephemeral secret. -/
def outputBlind (r : P.Scalar) (recipient : Address) : P.Scalar :=
  blindFromBytes P Domain.stealthBlind
    (sharedSecret P (r • Commitment.pointOrZero P recipient.scanPk)).toBytes

/-- What holds of every created output. -/
structure CreatedOutput (ctx : Bytes) (features : OutputFeature) (r : P.Scalar)
    (recipient : Address) (value : UInt64) (created : Output × SenderSecrets P) : Prop where
  features : created.1.features = features
  commit : created.1.commit = commitNew P value created.2.blind
  ephemeralPk : created.1.ephemeralPk = P.compress (r • P.generatorG)
  proven : P.rangeVerify created.1.rangeProof created.1.commit ctx = true
  signed : created.1.verifySenderSig P = true
  blind : created.2.blind = outputBlind P r recipient
  ephemeral : created.2.ephemeral = r

theorem createOutput_spec (sound : C.Sound) {r : P.Scalar} {recipient : Address} {value : UInt64}
    {memo : Text} {ctx : Bytes} {features : OutputFeature} {created : Output × SenderSecrets P}
    (built : createOutput C r recipient value memo ctx features = some created) :
    CreatedOutput ctx features r recipient value created := by
  simp only [createOutput, Option.bind_eq_bind, Option.bind_eq_some_iff, Option.some.injEq] at built
  obtain ⟨scanPoint, scanned, _, _, ⟨proof, commit⟩, proved, _, _, rfl⟩ := built
  obtain ⟨opens, proven⟩ := sound.proves proved
  have scanKey : Commitment.pointOrZero P recipient.scanPk = scanPoint := by
    rw [Commitment.pointOrZero, Commitment.point, scanned, Option.getD_some]
  refine ⟨rfl, opens, rfl, proven, ?_, by rw [outputBlind, scanKey], rfl⟩
  simp only [Output.verifySenderSig, P.decompress_compress]
  exact sound.signs _ _ _

/-- The kernel that the builders make from two secrets. -/
theorem builtKernel_spec (sound : C.Sound) (feature : KernelFeature)
    (feeDarks rewardDarks lockHeight : UInt64) (excessSecret x : P.Scalar) :
    let kernel := attachStealth C (buildKernel C feature feeDarks rewardDarks lockHeight
      excessSecret) x
    Commitment.point P kernel.excess = some (excessSecret • P.generatorH) ∧
      stealthExcessPoint P kernel = .ok (x • P.generatorG) ∧
      (kernel.verifySignature P = true ↔ excessSecret • P.generatorH ≠ 0) := by
  intro kernel
  have excess : Commitment.point P kernel.excess = some (excessSecret • P.generatorH) :=
    Commitment.point_fromPoint P _
  refine ⟨excess, ?_, ?_⟩
  · have stealth : P.schnorrVerify (x • P.generatorG) P.generatorG
        (kernelStealthMessage P (kernel.signingMessage P) (P.compress (x • P.generatorG)))
        (C.sign x P.generatorG (kernelStealthMessage P (kernel.signingMessage P)
          (P.compress (x • P.generatorG)))) = true := sound.signs _ _ _
    have verified : kernel.verifiedStealthExcess P =
        if P.schnorrVerify (x • P.generatorG) P.generatorG
          (kernelStealthMessage P (kernel.signingMessage P) (P.compress (x • P.generatorG)))
          (C.sign x P.generatorG (kernelStealthMessage P (kernel.signingMessage P)
            (P.compress (x • P.generatorG)))) then some (x • P.generatorG) else none := by
      simp only [TxKernel.verifiedStealthExcess, kernel, attachStealth, Option.bind_eq_bind,
        Option.bind_some, P.decompress_compress]
      rfl
    rw [stealthExcessPoint, verified, if_pos stealth]
    rfl
  · unfold TxKernel.verifySignature
    rw [excess]
    constructor
    · intro accepted zero
      simp only [if_pos zero] at accepted
      contradiction
    · intro nonzero
      simp only [if_neg nonzero]
      exact sound.signs _ _ _

/-- The outputs of a transfer, one for each numbered payment. -/
abbrev CreatedOutputs (draws : TransferDraws P) (ctx : Bytes) :
    List (Payment × Nat) → List (Output × SenderSecrets P) → Prop :=
  List.Forall₂ fun entry created =>
    CreatedOutput ctx .plain (draws.ephemeral entry.2) entry.1.recipient entry.1.amount created

theorem createOutputs_spec (sound : C.Sound) {draws : TransferDraws P} {ctx : Bytes} {index : Nat}
    {payments : List Payment} {outputs : List (Output × SenderSecrets P)}
    (built : createOutputs C draws ctx index payments = some outputs) :
    CreatedOutputs draws ctx (payments.zipIdx index) outputs := by
  induction payments generalizing index outputs with
  | nil =>
      obtain rfl := Option.some.inj built
      exact .nil
  | cons payment rest ih =>
      simp only [createOutputs, Option.bind_eq_bind, Option.bind_eq_some_iff,
        Option.some.injEq] at built
      obtain ⟨created, first, others, later, rfl⟩ := built
      exact .cons (createOutput_spec sound first) (ih later)

section Outputs

variable {draws : TransferDraws P} {ctx : Bytes} {entries : List (Payment × Nat)}
  {outputs : List (Output × SenderSecrets P)}

theorem CreatedOutputs.commits_sum (created : CreatedOutputs draws ctx entries outputs) :
    (outputs.map fun output => Commitment.pointOrZero P output.1.commit).sum =
      (exactTotal (entries.map fun entry => entry.1.amount) : ℤ) • P.generatorG +
        (outputs.map fun output => output.2.blind).sum • P.generatorH := by
  induction created with
  | nil => simp [exactTotal]
  | cons first _ ih =>
      simp only [List.map_cons, List.sum_cons, ih, first.commit, pointOrZero_commitNew, exactTotal,
        Nat.cast_add, add_smul, Nat.cast_smul_eq_nsmul]
      abel

theorem CreatedOutputs.blinds_sum (created : CreatedOutputs draws ctx entries outputs) :
    (outputs.map fun output => output.2.blind).sum =
      (entries.map fun entry =>
        outputBlind P (draws.ephemeral entry.2) entry.1.recipient).sum := by
  induction created with
  | nil => rfl
  | cons first _ ih => simp only [List.map_cons, List.sum_cons, ih, first.blind]

/-- The ephemeral keys stand for the ephemeral secrets. -/
theorem CreatedOutputs.keys_sum (created : CreatedOutputs draws ctx entries outputs) :
    (outputs.map fun output => Guard.valueOrZero (ephemeralPoint P output.1)).sum =
      (outputs.map fun output => output.2.ephemeral).sum • P.generatorG := by
  induction created with
  | nil => simp
  | cons first _ ih =>
      have key := congrArg (fun bytes => Guard.valueOrZero
        (Guard.need (P.decompress bytes) TxError.malformedOutputKey)) first.ephemeralPk
      simp only [P.decompress_compress, Guard.need, Guard.valueOrZero_ok] at key
      simp only [List.map_cons, List.sum_cons, ih, first.ephemeral, add_smul]
      rw [← key]
      rfl

theorem CreatedOutputs.forall_mem {holds : Output → Prop}
    (created : CreatedOutputs draws ctx entries outputs)
    (each : ∀ {r recipient value} {output : Output × SenderSecrets P},
      CreatedOutput ctx .plain r recipient value output → holds output.1) :
    ∀ output ∈ outputs.map Prod.fst, holds output := by
  induction created with
  | nil => simp
  | cons first _ ih =>
      intro output member
      rcases List.mem_cons.mp member with rfl | later
      · exact each first
      · exact ih output later

theorem CreatedOutput.ephemeralPoint_isOk {features : OutputFeature} {r : P.Scalar}
    {recipient : Address} {value : UInt64} {output : Output × SenderSecrets P}
    (created : CreatedOutput ctx features r recipient value output) :
    ephemeralPoint P output.1 = .ok (r • P.generatorG) := by
  rw [ephemeralPoint, created.ephemeralPk, P.decompress_compress]
  rfl

end Outputs

/-- The input key of a signed input stands for its input secret. -/
theorem inputKeyPoint_signInput (ki : P.Scalar) (coin : Spendable P) :
    inputKeyPoint P (signInput C ki coin) = .ok (ki • P.generatorG) := by
  simp only [inputKeyPoint, Guard.bind_eq_ok, Guard.need_eq_ok]
  exact ⟨_, rfl, P.decompress_compress _⟩

theorem signedInputs_keys_sum {coins : List (Spendable P)} {secrets : List P.Scalar}
    (lengths : secrets.length = coins.length) :
    (((coins.zip secrets).map fun (coin, ki) => signInput C ki coin).map fun input =>
        Guard.valueOrZero (inputKeyPoint P input)).sum = secrets.sum • P.generatorG := by
  induction coins generalizing secrets with
  | nil =>
      obtain rfl := List.length_eq_zero_iff.mp lengths
      simp
  | cons coin rest ih =>
      cases secrets with
      | nil => contradiction
      | cons secret others =>
          have later := ih (Nat.succ.inj lengths)
          simp only [List.zip_cons_cons, List.map_cons, List.sum_cons, inputKeyPoint_signInput,
            Guard.valueOrZero_ok, add_smul] at later ⊢
          rw [later]

theorem coins_sum {coins : List (Spendable P)}
    (opens : ∀ coin ∈ coins, coin.commit = commitNew P coin.value coin.blind) :
    (coins.map fun coin => Commitment.pointOrZero P coin.commit).sum =
      (exactTotal (coins.map Spendable.value) : ℤ) • P.generatorG +
        (coins.map Spendable.blind).sum • P.generatorH := by
  induction coins with
  | nil => simp [exactTotal]
  | cons coin rest ih =>
      have later := ih fun other member => opens other (by simp [member])
      simp only [List.map_cons, List.sum_cons, later, opens coin (by simp), pointOrZero_commitNew,
        exactTotal, Nat.cast_add, add_smul, Nat.cast_smul_eq_nsmul]
      abel

end Parts

/-! ## Transfers -/

/-- The arguments of one transfer. -/
structure TransferRequest (P : Primitives) where
  draws : TransferDraws P
  spendables : List (Spendable P)
  payments : List Payment
  feeDarks : UInt64
  changeTo : Address
  lockHeight : UInt64
  kernelOffset : Bool

namespace TransferRequest

def build (C : TransferCrypto P) (ctx : Bytes) (request : TransferRequest P) :
    Except BuildError Transaction :=
  buildTransferWith C request.draws request.spendables request.payments request.feeDarks
    request.changeTo request.lockHeight ctx request.kernelOffset

variable (request : TransferRequest P)

/-- Every coin opens its commitment, as the builder asserts. -/
def Opens : Prop :=
  ∀ coin ∈ request.spendables, coin.commit = commitNew P coin.value coin.blind

def exactIn : Nat := exactTotal (request.spendables.map Spendable.value)

def exactPaid : Nat := exactTotal (request.payments.map Payment.amount)

/-- The change, as a whole number, is an amount. -/
def ChangeFits : Prop :=
  request.exactPaid + request.feeDarks.toNat ≤ request.exactIn ∧
    request.exactIn < request.exactPaid + request.feeDarks.toNat + 2 ^ 64

/-- The recipients with the number of their draw, the change last. -/
def recipients : List (Address × Nat) :=
  (request.payments.map Payment.recipient ++ [request.changeTo]).zipIdx

/-- The blinding factors that come in and the offset do not cancel those that go out. -/
def BlindsRemain : Prop :=
  (request.recipients.map fun entry =>
      outputBlind P (request.draws.ephemeral entry.2) entry.1).sum • P.generatorH ≠
    ((request.spendables.map Spendable.blind).sum +
      if request.kernelOffset then request.draws.kernelOffset else 0) • P.generatorH

/-- How much more often the payments wrap around than the coins. -/
def lostWraps : ℤ :=
  (wraps (request.payments.map Payment.amount) : ℤ) -
    wraps (request.spendables.map Spendable.value)

end TransferRequest

/-- What the builder returns. -/
structure BuiltTransfer (request : TransferRequest P) (ctx : Bytes) (tx : Transaction) : Prop where
  shape : tx.checkShape P = .ok ()
  fullBinding : tx.hasFullBinding = true
  kernelOffset : tx.kernelOffset = none ↔ request.kernelOffset = false
  kernels : ∃ kernel, tx.kernels = [kernel] ∧ kernel.feature = .plain ∧
    kernel.feeDarks = request.feeDarks ∧ kernel.rewardDarks = 0
  plain : ∀ output ∈ tx.outputs, output.features = .plain
  outputs : ∀ output ∈ tx.outputs,
    P.rangeVerify output.rangeProof output.commit ctx = true ∧ output.verifySenderSig P = true
  signed : (∀ kernel ∈ tx.kernels, kernel.verifySignature P = true) ↔ request.BlindsRemain
  decodes : tx.contents.Decodes P
  keysDecode : tx.contents.KeysDecode P
  surplus : tx.contents.surplus P = (2 ^ 64 * request.lostWraps) • P.generatorG
  keySurplus : tx.contents.keySurplus P = 0
  changeFits : request.ChangeFits ↔ request.lostWraps = 0
  few : |request.lostWraps| < 2 ^ 64

theorem wraps_le (amounts : List UInt64) : wraps amounts ≤ amounts.length := by
  by_cases empty : amounts = []
  · simp [empty, wraps, exactTotal]
  · have bound := exactTotal_lt amounts empty
    rw [wraps]
    exact (Nat.div_lt_of_lt_mul (by rwa [Nat.mul_comm] at bound)).le

theorem exactTotal_eq (amounts : List UInt64) :
    exactTotal amounts = 2 ^ 64 * wraps amounts + amounts.sum.toNat := by
  rw [toNat_sum, wraps]
  exact (Nat.div_add_mod _ _).symm

/-! ### The integers -/

section Amounts

variable {request : TransferRequest P} {needed : UInt64}

/-- What the builder checks of the wrapping sums. -/
structure Affords (request : TransferRequest P) (needed : UInt64) : Prop where
  needs : needed.toNat = (request.payments.map Payment.amount).sum.toNat + request.feeDarks.toNat
  enough : needed.toNat ≤ (request.spendables.map Spendable.value).sum.toNat

theorem Affords.toNat_change (affords : Affords request needed) :
    ((request.spendables.map Spendable.value).sum - needed).toNat =
      (request.spendables.map Spendable.value).sum.toNat - needed.toNat :=
  UInt64.toNat_sub_of_le _ _ (UInt64.le_iff_toNat_le.mpr affords.enough)

/-- The outputs and the fee exceed the inputs by the lost wraps. -/
theorem Affords.exact_eq (affords : Affords request needed) :
    (exactTotal (request.payments.map Payment.amount ++
        [(request.spendables.map Spendable.value).sum - needed]) : ℤ) -
      exactTotal (request.spendables.map Spendable.value) + request.feeDarks.toNat =
        2 ^ 64 * request.lostWraps := by
  have paid := exactTotal_eq (request.payments.map Payment.amount)
  have available := exactTotal_eq (request.spendables.map Spendable.value)
  have change := affords.toNat_change
  have needs := affords.needs
  have enough := affords.enough
  have single : exactTotal [(request.spendables.map Spendable.value).sum - needed] =
      (request.spendables.map Spendable.value).sum.toNat - needed.toNat := by
    rw [← change]
    exact Nat.add_zero _
  rw [exactTotal_append, single, TransferRequest.lostWraps]
  omega

theorem Affords.changeFits_iff (affords : Affords request needed) :
    request.ChangeFits ↔ request.lostWraps = 0 := by
  have paid := exactTotal_eq (request.payments.map Payment.amount)
  have available := exactTotal_eq (request.spendables.map Spendable.value)
  have needs := affords.needs
  have enough := affords.enough
  have bound := (request.spendables.map Spendable.value).sum.toNat_lt
  simp only [TransferRequest.ChangeFits, TransferRequest.exactIn, TransferRequest.exactPaid,
    TransferRequest.lostWraps]
  omega

end Amounts

theorem map_fst_zipIdx {α β : Type*} (value : α → β) (list : List α) (index : Nat) :
    ((list.zipIdx index).map fun entry => value entry.1) = list.map value := by
  induction list generalizing index with
  | nil => rfl
  | cons head tail ih => simp [ih]

theorem blinds_eq_recipients (request : TransferRequest P) (change : UInt64) :
    (((request.payments ++ [(⟨request.changeTo, change, []⟩ : Payment)]).zipIdx 0).map fun entry =>
        outputBlind P (request.draws.ephemeral entry.2) entry.1.recipient) =
      request.recipients.map fun entry => outputBlind P (request.draws.ephemeral entry.2) entry.1 := by
  have names : request.payments.map Payment.recipient ++ [request.changeTo] =
      (request.payments ++ [(⟨request.changeTo, change, []⟩ : Payment)]).map Payment.recipient := by
    simp
  rw [TransferRequest.recipients, names, List.zipIdx_map, List.map_map]
  apply List.map_congr_left
  intro entry _
  rfl

/-! ### The assembled transaction -/

section Assembled

variable {C : TransferCrypto P} {request : TransferRequest P} {ctx : Bytes}
  {outputs : List (Output × SenderSecrets P)}

/-- The scalar of the kernel offset, zero when there is none. -/
def TransferRequest.offset (request : TransferRequest P) : P.Scalar :=
  if request.kernelOffset then request.draws.kernelOffset else 0

def TransferRequest.inputSecrets (request : TransferRequest P) : List P.Scalar :=
  request.spendables.zipIdx.map fun (coin, index) =>
    deriveInputSecret (request.draws.entropy index) coin.spendSecret coin.commit

/-- The kernel over the created outputs. -/
def TransferRequest.kernel (request : TransferRequest P) (C : TransferCrypto P)
    (outputs : List (Output × SenderSecrets P)) : TxKernel :=
  attachStealth C
    (buildKernel C .plain request.feeDarks 0 request.lockHeight
      (((outputs.map Prod.snd).map SenderSecrets.blind).sum -
        (request.spendables.map Spendable.blind).sum - request.offset))
    (request.inputSecrets.sum - ((outputs.map Prod.snd).map SenderSecrets.ephemeral).sum -
      request.draws.stealthOffset)

/-- The transaction over the created outputs. -/
def TransferRequest.assemble (request : TransferRequest P) (C : TransferCrypto P)
    (outputs : List (Output × SenderSecrets P)) : Transaction where
  version := txVersion
  inputs := (request.spendables.zip request.inputSecrets).map fun (coin, ki) => signInput C ki coin
  outputs := outputs.map Prod.fst
  kernels := [request.kernel C outputs]
  stealthOffset := some (P.scalarToBytes request.draws.stealthOffset)
  kernelOffset :=
    if request.kernelOffset then some (P.scalarToBytes request.draws.kernelOffset) else none

/-- The entries of the outputs: the payments and the change, numbered. -/
def TransferRequest.entries (request : TransferRequest P) (needed : UInt64) :
    List (Payment × Nat) :=
  (request.payments ++ [(⟨request.changeTo,
    (request.spendables.map Spendable.value).sum - needed, []⟩ : Payment)]).zipIdx

theorem assemble_of_build (sound : C.Sound) {tx : Transaction}
    (built : request.build C ctx = .ok tx) :
    ∃ needed outputs, Affords request needed ∧
      CreatedOutputs request.draws ctx (request.entries needed) outputs ∧
      tx.checkShape P = .ok () ∧ request.spendables.length ≤ maxInputs ∧
      request.payments.length < maxOutputs ∧ tx = request.assemble C outputs := by
  simp only [TransferRequest.build, buildTransferWith, Guard.bind_eq_ok, Guard.refuse_eq_ok,
    Guard.need_eq_ok, Guard.mapError_eq_ok, Machine.checkedAdd_eq_some, Except.ok.injEq] at built
  obtain ⟨_, _, _, coinsFew, _, paymentsFew, needed, needs, _, enough, outputs, created, _, shape,
    rfl⟩ := built
  exact ⟨needed, outputs, ⟨needs, UInt64.le_iff_toNat_le.mp (UInt64.not_lt.mp enough)⟩,
    createOutputs_spec sound created, shape, Nat.not_lt.mp coinsFew,
    Nat.lt_of_succ_le (Nat.not_lt.mp paymentsFew), rfl⟩

/-- The three facts about the kernel of the assembled transaction. -/
theorem kernel_spec (sound : C.Sound) :
    Commitment.point P (request.kernel C outputs).excess =
        some ((((outputs.map Prod.snd).map SenderSecrets.blind).sum -
          (request.spendables.map Spendable.blind).sum - request.offset) • P.generatorH) ∧
      stealthExcessPoint P (request.kernel C outputs) =
        .ok ((request.inputSecrets.sum - ((outputs.map Prod.snd).map SenderSecrets.ephemeral).sum -
          request.draws.stealthOffset) • P.generatorG) ∧
      ((request.kernel C outputs).verifySignature P = true ↔
        (((outputs.map Prod.snd).map SenderSecrets.blind).sum -
          (request.spendables.map Spendable.blind).sum - request.offset) • P.generatorH ≠ 0) :=
  builtKernel_spec sound .plain request.feeDarks 0 request.lockHeight _ _

theorem assemble_inputCommits :
    (request.assemble C outputs).inputs.map Input.commit =
      request.spendables.map Spendable.commit := by
  have lengths : request.spendables.length ≤ request.inputSecrets.length := by
    simp [TransferRequest.inputSecrets]
  have firsts := congrArg (List.map Spendable.commit) (List.map_fst_zip lengths)
  rw [List.map_map] at firsts
  rw [TransferRequest.assemble, List.map_map]
  exact firsts

/-- The value surplus is the exact difference of the amounts. -/
theorem assemble_surplus (sound : C.Sound) (opens : request.Opens) {needed : UInt64}
    (affords : Affords request needed)
    (created : CreatedOutputs request.draws ctx (request.entries needed) outputs) :
    (request.assemble C outputs).contents.surplus P =
      (2 ^ 64 * request.lostWraps) • P.generatorG := by
  have offset : offsetScalar P (request.assemble C outputs).kernelOffset = request.offset := by
    unfold TransferRequest.assemble TransferRequest.offset
    cases request.kernelOffset <;> simp
  have commits : ((request.assemble C outputs).outputs.map Output.commit).map
      (Commitment.pointOrZero P) =
        outputs.map fun output => Commitment.pointOrZero P output.1.commit := by
    simp [TransferRequest.assemble, Function.comp_def]
  have amounts : (request.entries needed).map (fun entry => entry.1.amount) =
      request.payments.map Payment.amount ++
        [(request.spendables.map Spendable.value).sum - needed] := by
    rw [TransferRequest.entries, map_fst_zipIdx Payment.amount, List.map_append]
    rfl
  have spent : (((request.assemble C outputs).inputs.map Input.commit).map
      (Commitment.pointOrZero P)).sum =
        (exactTotal (request.spendables.map Spendable.value) : ℤ) • P.generatorG +
          (request.spendables.map Spendable.blind).sum • P.generatorH := by
    rw [assemble_inputCommits, List.map_map]
    exact coins_sum opens
  have paid := created.commits_sum
  rw [amounts] at paid
  have fee : exactTotal (request.assemble C outputs).contents.fees = request.feeDarks.toNat :=
    Nat.add_zero _
  have reward : exactTotal (request.assemble C outputs).contents.rewards = 0 := rfl
  have kernel : ((request.assemble C outputs).contents.excesses.map
      (Commitment.pointOrZero P)).sum =
        (((outputs.map Prod.snd).map SenderSecrets.blind).sum -
          (request.spendables.map Spendable.blind).sum - request.offset) • P.generatorH := by
    have single : (request.assemble C outputs).contents.excesses =
        [(request.kernel C outputs).excess] := rfl
    rw [single, List.map_singleton, List.sum_singleton, Commitment.pointOrZero,
      (kernel_spec sound).1, Option.getD_some]
  have blinds : ((outputs.map Prod.snd).map SenderSecrets.blind) =
      outputs.map fun output => output.2.blind := by
    simp [Function.comp_def]
  rw [BlockBody.surplus, fee, reward, kernel]
  simp only [BlockBody.outputCommits, BlockBody.inputCommits, Transaction.contents]
  rw [commits, paid, spent, offset, blinds, ← affords.exact_eq]
  simp only [sub_smul, add_smul, Nat.cast_zero, zero_smul]
  abel

theorem inputSecrets_length : request.inputSecrets.length = request.spendables.length := by
  simp [TransferRequest.inputSecrets]

/-- The key surplus vanishes. -/
theorem assemble_keySurplus (sound : C.Sound) {needed : UInt64}
    (created : CreatedOutputs request.draws ctx (request.entries needed) outputs) :
    (request.assemble C outputs).contents.keySurplus P = 0 := by
  have kernels : ((request.assemble C outputs).contents.kernels.map fun kernel =>
      Guard.valueOrZero (stealthExcessPoint P kernel)).sum =
        (request.inputSecrets.sum - ((outputs.map Prod.snd).map SenderSecrets.ephemeral).sum -
          request.draws.stealthOffset) • P.generatorG := by
    have single : (request.assemble C outputs).contents.kernels = [request.kernel C outputs] := rfl
    rw [single, List.map_singleton, List.sum_singleton, (kernel_spec sound).2.1,
      Guard.valueOrZero_ok]
  have keys : ((request.assemble C outputs).contents.inputs.map fun input =>
      Guard.valueOrZero (inputKeyPoint P input)).sum =
        request.inputSecrets.sum • P.generatorG :=
    signedInputs_keys_sum inputSecrets_length
  have ephemerals : ((request.assemble C outputs).contents.outputs.map fun output =>
      Guard.valueOrZero (ephemeralPoint P output)).sum =
        ((outputs.map Prod.snd).map SenderSecrets.ephemeral).sum • P.generatorG := by
    have mapped := created.keys_sum
    simpa [TransferRequest.assemble, Transaction.contents, Function.comp_def] using mapped
  have offset : offsetScalar P (request.assemble C outputs).contents.stealthOffset =
      request.draws.stealthOffset := offsetScalar_toBytes _
  rw [BlockBody.keySurplus, kernels, keys, ephemerals, offset, sub_smul, sub_smul]
  abel

theorem assemble_decodes (sound : C.Sound) (opens : request.Opens) {needed : UInt64}
    (created : CreatedOutputs request.draws ctx (request.entries needed) outputs) :
    (request.assemble C outputs).contents.Decodes P where
  inputs := by
    intro commit member
    have spent : commit ∈ request.spendables.map Spendable.commit := by
      rw [← @assemble_inputCommits P C request outputs]
      exact member
    obtain ⟨coin, inCoins, rfl⟩ := List.mem_map.mp spent
    rw [opens coin inCoins]
    exact isSome_point_commitNew _ _
  outputs := by
    refine List.forall_mem_map.mpr (created.forall_mem fun each => ?_)
    rw [each.commit]
    exact isSome_point_commitNew _ _
  kernels := by
    intro excess member
    obtain rfl := List.mem_singleton.mp member
    rw [(kernel_spec sound).1]
    rfl
  offset := by
    have absent : OffsetDecodes P none := by
      rintro _ ⟨⟩
    unfold TransferRequest.assemble
    cases request.kernelOffset with
    | false => exact absent
    | true => exact offsetDecodes_toBytes _

theorem assemble_keysDecode (sound : C.Sound) {needed : UInt64}
    (created : CreatedOutputs request.draws ctx (request.entries needed) outputs) :
    (request.assemble C outputs).contents.KeysDecode P where
  inputs := by
    intro input member
    obtain ⟨⟨coin, ki⟩, _, rfl⟩ := List.mem_map.mp member
    rw [inputKeyPoint_signInput]
    rfl
  outputs := created.forall_mem fun each => by
    rw [each.ephemeralPoint_isOk]
    rfl
  kernels := by
    intro kernel member
    obtain rfl := List.mem_singleton.mp member
    rw [(kernel_spec sound).2.1]
    rfl
  offset := offsetDecodes_toBytes _

/-- The kernel signature is accepted exactly when the blinding factors do not cancel. -/
theorem assemble_signed (sound : C.Sound) {needed : UInt64}
    (created : CreatedOutputs request.draws ctx (request.entries needed) outputs) :
    (∀ kernel ∈ (request.assemble C outputs).kernels, kernel.verifySignature P = true) ↔
      request.BlindsRemain := by
  have blinds : ((outputs.map Prod.snd).map SenderSecrets.blind).sum =
      (request.recipients.map fun entry =>
        outputBlind P (request.draws.ephemeral entry.2) entry.1).sum := by
    rw [← blinds_eq_recipients request
      ((request.spendables.map Spendable.value).sum - needed), List.map_map]
    exact created.blinds_sum
  have single : (request.assemble C outputs).kernels = [request.kernel C outputs] := rfl
  rw [single, List.forall_mem_singleton, (kernel_spec sound).2.2, blinds, sub_sub, sub_smul,
    sub_ne_zero]
  rfl

theorem assemble_fullBinding : (request.assemble C outputs).hasFullBinding = true := by
  simp [Transaction.hasFullBinding, TransferRequest.assemble, TransferRequest.kernel,
    attachStealth, signInput]

end Assembled

/-- What a built transfer satisfies. -/
theorem built_of_build {C : TransferCrypto P} (sound : C.Sound) {ctx : Bytes}
    {request : TransferRequest P} {tx : Transaction} (opens : request.Opens)
    (built : request.build C ctx = .ok tx) : BuiltTransfer request ctx tx := by
  obtain ⟨needed, outputs, affords, created, shape, coinsFew, paymentsFew, rfl⟩ :=
    assemble_of_build sound built
  exact {
    shape := shape
    fullBinding := assemble_fullBinding
    kernelOffset := by
      unfold TransferRequest.assemble
      cases request.kernelOffset <;> simp
    kernels := ⟨_, rfl, rfl, rfl, rfl⟩
    plain := created.forall_mem fun each => each.features
    outputs := created.forall_mem fun each => ⟨each.proven, each.signed⟩
    signed := assemble_signed sound created
    decodes := assemble_decodes sound opens created
    keysDecode := assemble_keysDecode sound created
    surplus := assemble_surplus sound opens affords created
    keySurplus := assemble_keySurplus sound created
    changeFits := affords.changeFits_iff
    few := by
      have paid := wraps_le (request.payments.map Payment.amount)
      have available := wraps_le (request.spendables.map Spendable.value)
      rw [List.length_map] at paid available
      simp only [maxInputs, maxOutputs] at coinsFew paymentsFew
      rw [TransferRequest.lostWraps, abs_lt]
      omega }

end Nightfall
