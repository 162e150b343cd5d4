import Nightfall.Library.UndoLog
import Nightfall.Ledger.Accepted

/-!
# Rewinding is the inverse of applying

`rewind` removes what a body created and puts back what it spent.  On a body that
was validated this restores the ledger exactly.  A replayed body is not checked for
commitments that already exist, and a commitment that it re-creates without spending
is lost on the way back: `rewind_exact_iff` gives the condition for a whole sequence.
-/

namespace Nightfall

variable {P : Primitives}

namespace LedgerState

/-! ## Lookups after a commit and after a rewind -/

@[simp] theorem commit_utxos (state : LedgerState P) (body : BlockBody) (height : UInt64)
    (kernels : KernelAccumulator) (supply : SupplyState) :
    (state.commit body height kernels supply).utxos = state.utxosAfter body height := rfl

@[simp] theorem commit_kernels (state : LedgerState P) (body : BlockBody) (height : UInt64)
    (kernels : KernelAccumulator) (supply : SupplyState) :
    (state.commit body height kernels supply).kernels = kernels := rfl

@[simp] theorem commit_supply (state : LedgerState P) (body : BlockBody) (height : UInt64)
    (kernels : KernelAccumulator) (supply : SupplyState) :
    (state.commit body height kernels supply).supply = supply := rfl

@[simp] theorem commit_coinbaseMaturity (state : LedgerState P) (body : BlockBody)
    (height : UInt64) (kernels : KernelAccumulator) (supply : SupplyState) :
    (state.commit body height kernels supply).coinbaseMaturity = state.coinbaseMaturity := rfl

@[simp] theorem commit_bindingHeight (state : LedgerState P) (body : BlockBody)
    (height : UInt64) (kernels : KernelAccumulator) (supply : SupplyState) :
    (state.commit body height kernels supply).bindingHeight = state.bindingHeight := rfl

@[simp] theorem rewind_coinbaseMaturity (state : LedgerState P) (undo : StateUndo) :
    (state.rewind undo).coinbaseMaturity = state.coinbaseMaturity := rfl

@[simp] theorem rewind_bindingHeight (state : LedgerState P) (undo : StateUndo) :
    (state.rewind undo).bindingHeight = state.bindingHeight := rfl

theorem rewind_tracks {state : LedgerState P} (tracks : state.utxos.Tracks)
    (undo : StateUndo) : (state.rewind undo).utxos.Tracks :=
  (tracks.removeAll _).insertAll _

/-- Commitments that a body does not mention keep their entry. -/
theorem get_utxosAfter_of_notMem {state : LedgerState P} {body : BlockBody}
    (height : UInt64) {commit : Commitment} (notSpent : commit ∉ body.inputCommits)
    (notCreated : commit ∉ body.outputCommits) :
    (state.utxosAfter body height).get commit = state.utxos.get commit := by
  unfold utxosAfter
  rw [UtxoSet.get_insertAll_of_notMem _ (by simpa using notCreated), UtxoSet.get_removeAll,
    if_neg (by simpa using notSpent)]

/-- A commitment that a body spends and does not create is gone. -/
theorem get_utxosAfter_of_spent {state : LedgerState P} {body : BlockBody} (height : UInt64)
    {commit : Commitment} (spent : commit ∈ body.inputCommits)
    (notCreated : commit ∉ body.outputCommits) :
    (state.utxosAfter body height).get commit = none := by
  unfold utxosAfter
  rw [UtxoSet.get_insertAll_of_notMem _ (by simpa using notCreated), UtxoSet.get_removeAll,
    if_pos (by simpa using spent)]

theorem isSome_get_utxosAfter_of_created {state : LedgerState P} {body : BlockBody}
    (height : UInt64) {commit : Commitment} (created : commit ∈ body.outputCommits) :
    ((state.utxosAfter body height).get commit).isSome := by
  apply UtxoSet.isSome_get_insertAll_of_mem
  simpa using created

/-- The keys an undo record puts back are the spent commitments. -/
theorem undoRecord_spent_keys {state : LedgerState P} {commits : List Commitment}
    (present : ∀ commit ∈ commits, (state.utxos.get commit).isSome) :
    (commits.filterMap fun commit =>
      (state.utxos.get commit).map fun entry => (commit, entry)).map Prod.fst = commits := by
  induction commits with
  | nil => rfl
  | cons commit rest ih =>
      obtain ⟨entry, found⟩ := Option.isSome_iff_exists.mp (present commit List.mem_cons_self)
      have restKeys := ih fun other member => present other (List.mem_cons_of_mem _ member)
      simp [found, restKeys]

/-- Rewinding a record of `origin` restores what the body spent and removes what it
created, whatever state it is applied to. -/
theorem get_rewind_undoRecord {origin : LedgerState P} {body : BlockBody}
    (present : ∀ commit ∈ body.inputCommits, (origin.utxos.get commit).isSome)
    (nodup : body.inputCommits.Nodup) (state : LedgerState P) (commit : Commitment) :
    (state.rewind (origin.undoRecord body)).utxos.get commit =
      if commit ∈ body.inputCommits then origin.utxos.get commit
      else if commit ∈ body.outputCommits then none
      else state.utxos.get commit := by
  have keys := undoRecord_spent_keys present
  unfold rewind undoRecord
  simp only
  split
  next spent =>
      obtain ⟨entry, found⟩ := Option.isSome_iff_exists.mp (present commit spent)
      rw [found]
      apply UtxoSet.get_insertAll_of_mem
      · rw [keys]
        exact nodup
      · exact List.mem_filterMap.mpr ⟨commit, spent, by simp [found]⟩
  next notSpent =>
      rw [UtxoSet.get_insertAll_of_notMem _ (by rw [keys]; exact notSpent),
        UtxoSet.get_removeAll]

/-! ## One body -/

/-- Every commitment a body creates is new, or replaces one that it spends. -/
def OverwritesNothing (state : LedgerState P) (body : BlockBody) : Prop :=
  ∀ commit ∈ body.outputCommits, state.utxos.get commit = none ∨ commit ∈ body.inputCommits

instance (state : LedgerState P) (body : BlockBody) : Decidable (state.OverwritesNothing body) :=
  -- The search for an instance would enumerate all commitments.
  List.decidableBAll (fun commit => state.utxos.get commit = none ∨ commit ∈ body.inputCommits)
    body.outputCommits

/-- The undo record only reads the commitments of a body. -/
theorem undoRecord_congr {state : LedgerState P} {left right : BlockBody}
    (inputs : left.inputCommits = right.inputCommits)
    (outputs : left.outputCommits = right.outputCommits) :
    state.undoRecord left = state.undoRecord right := by
  simp [undoRecord, inputs, outputs]

/-- Rewinding one committed body gives back the state before it. -/
theorem rewind_commit {state : LedgerState P} (tracks : state.utxos.Tracks) {body : BlockBody}
    (present : ∀ commit ∈ body.inputCommits, (state.utxos.get commit).isSome)
    (nodup : body.inputCommits.Nodup) (overwrites : state.OverwritesNothing body)
    (height : UInt64) (kernels : KernelAccumulator) (supply : SupplyState) :
    (state.commit body height kernels supply).rewind (state.undoRecord body) = state := by
  have committedTracks : (state.commit body height kernels supply).utxos.Tracks :=
    utxosAfter_tracks tracks body height
  have utxos : ((state.commit body height kernels supply).rewind
      (state.undoRecord body)).utxos = state.utxos := by
    refine (rewind_tracks committedTracks _).ext tracks (UtxoSet.entries_ext fun commit => ?_)
    rw [get_rewind_undoRecord present nodup]
    split
    · rfl
    next notSpent =>
        split
        next created => exact ((overwrites commit created).resolve_right notSpent).symm
        next notCreated =>
            rw [commit_utxos]
            exact get_utxosAfter_of_notMem height notSpent notCreated
  have rest : (state.commit body height kernels supply).rewind (state.undoRecord body) =
      { state with
        utxos := ((state.commit body height kernels supply).rewind
          (state.undoRecord body)).utxos } := rfl
  rw [rest, utxos]

theorem Valid.overwritesNothing {state : LedgerState P} {body : BlockBody}
    {height expectedReward : UInt64} {ctx : Bytes} {coinbase : TxKernel} {offset : P.Point}
    {staged : Staged}
    (valid : Valid state body height expectedReward ctx coinbase offset staged) :
    state.OverwritesNothing body :=
  fun commit created => Or.inl (valid.created_fresh commit created)

/-! ## Replayed bodies -/

theorem validateStateOnly_eq_ok {state : LedgerState P} {body : BlockBody}
    {height expectedReward : UInt64} {staged : KernelAccumulator × SupplyState} :
    state.validateStateOnly body height expectedReward = .ok staged ↔
      body.outputs ≠ [] ∧ body.kernels ≠ [] ∧ body.coinbaseKernels = 1 ∧
        state.supply.wouldExceedCap expectedReward = false ∧
        (∀ commit ∈ body.inputCommits, (state.utxos.get commit).isSome) ∧
        body.inputCommits.Nodup ∧
        state.stageKernelsStateOnly body height = .ok staged.1 ∧
        stageSupply state.supply expectedReward body.totalFee = .ok staged.2 := by
  obtain ⟨kernels, supply⟩ := staged
  simp only [validateStateOnly, Guard.bind_eq_ok, Guard.refuse_eq_ok, Guard.eachOnce_eq_ok,
    not_or, not_not, true_and, UtxoSet.contains_eq_isSome, Bool.not_eq_true,
    Bool.not_eq_false, Except.ok.injEq, Prod.mk.injEq, BlockBody.inputCommits, List.forall_mem_map]
  constructor
  · rintro ⟨_, ⟨outputs, kernelsNe⟩, _, one, _, cap, _, ⟨present, nodup⟩, _, stagedKernels, _,
      stagedSupply, rfl, rfl⟩
    exact ⟨outputs, kernelsNe, one, cap, present, nodup, stagedKernels, stagedSupply⟩
  · rintro ⟨outputs, kernelsNe, one, cap, present, nodup, stagedKernels, stagedSupply⟩
    exact ⟨(), ⟨outputs, kernelsNe⟩, (), one, (), cap, (), ⟨present, nodup⟩, kernels,
      stagedKernels, supply, stagedSupply, rfl, rfl⟩

theorem applyBlockStateOnly_ok_iff {state next : LedgerState P} {body : BlockBody}
    {height expectedReward : UInt64} :
    state.applyBlockStateOnly body height expectedReward = (.ok (), next) ↔
      ∃ staged, state.validateStateOnly body height expectedReward = .ok staged ∧
        next = state.commit body height staged.1 staged.2 := by
  unfold applyBlockStateOnly
  cases state.validateStateOnly body height expectedReward with
  | error error => simp
  | ok staged => simp [eq_comm]

/-- A replay that fails changes nothing. -/
theorem applyBlockStateOnly_atomic (state : LedgerState P) (body : BlockBody)
    (height expectedReward : UInt64) :
    Guard.Atomic (fun ledger => ledger.applyBlockStateOnly body height expectedReward)
      state := by
  intro error failed
  simp only [applyBlockStateOnly] at failed ⊢
  split at failed
  · rfl
  · simp at failed

theorem applyBlockStateOnly_tracks {state : LedgerState P} (tracks : state.utxos.Tracks)
    (body : BlockBody) (height expectedReward : UInt64) :
    (state.applyBlockStateOnly body height expectedReward).2.utxos.Tracks := by
  unfold applyBlockStateOnly
  split
  · exact tracks
  · exact utxosAfter_tracks tracks _ _

/-- A visible body without binding fields has no offset to fold in. -/
theorem visibleBody_kernelOffset {state : LedgerState P} {body : BlockBody} {height : UInt64}
    (inactive : state.bindingActive height = false) :
    (state.visibleBody body height).kernelOffset = none := by
  unfold visibleBody
  split
  · rfl
  next visible =>
      have unbound : body.hasAnyBinding = false := by simpa [inactive] using visible
      simp only [BlockBody.hasAnyBinding, Bool.or_eq_false_iff] at unbound
      simpa using unbound.1.1.2

@[simp] theorem visibleBody_inputCommits (state : LedgerState P) (body : BlockBody)
    (height : UInt64) : (state.visibleBody body height).inputCommits = body.inputCommits := by
  unfold visibleBody
  split <;> simp

@[simp] theorem visibleBody_outputs (state : LedgerState P) (body : BlockBody)
    (height : UInt64) : (state.visibleBody body height).outputs = body.outputs := by
  unfold visibleBody
  split <;> simp

@[simp] theorem visibleBody_outputCommits (state : LedgerState P) (body : BlockBody)
    (height : UInt64) :
    (state.visibleBody body height).outputCommits = body.outputCommits := by
  simp [BlockBody.outputCommits]

/-- A block that validation accepts is accepted by a replay, with the same result. -/
theorem applyBlockStateOnly_of_valid {state : LedgerState P} {body : BlockBody}
    {height expectedReward : UInt64} {ctx : Bytes} {coinbase : TxKernel} {offset : P.Point}
    {staged : Staged}
    (valid : Valid state body height expectedReward ctx coinbase offset staged)
    (noOffset : state.bindingActive height = false → body.kernelOffset = none) :
    state.applyBlockStateOnly body height expectedReward =
      (.ok (), state.commit body height staged.kernels staged.supply) := by
  rw [applyBlockStateOnly_ok_iff]
  refine ⟨(staged.kernels, staged.supply), ?_, rfl⟩
  rw [validateStateOnly_eq_ok]
  refine ⟨valid.outputs_ne, valid.kernels_ne, valid.oneCoinbase, valid.cap,
    valid.spent_present, valid.spent_nodup, ?_, valid.stagedSupply⟩
  have decoded : offsetPointH P body.kernelOffset = .ok offset := by
    have balance := valid.balance
    simp only [checkBalance, Guard.bind_eq_ok, Guard.mapError_eq_ok, Except.ok.injEq] at balance
    obtain ⟨_, _, _, _, found, decoded, _, _, _, _, rfl⟩ := balance
    exact decoded
  obtain ⟨added, addedAll, offsetAdded⟩ :
      ∃ added, state.kernels.addAll P body.excesses = some added ∧
        added.addOffset P offset = some staged.kernels := by
    simpa [stageKernels] using valid.stagedKernels
  unfold stageKernelsStateOnly
  simp only [Guard.bind_eq_ok, Guard.need_eq_ok]
  refine ⟨added, addedAll, ?_⟩
  cases active : state.bindingActive height with
  | true =>
      simp only [↓reduceIte, Guard.bind_eq_ok, Guard.mapError_eq_ok, Guard.need_eq_ok]
      exact ⟨offset, decoded, offsetAdded⟩
  | false =>
      -- Without an offset the full path adds the identity, which changes nothing.
      have zero : offset = 0 := by
        rw [noOffset active] at decoded
        have decodedZero : (.ok ((0 : P.Scalar) • P.generatorH) : Except TxError P.Point) =
            .ok offset := decoded
        simpa using (Except.ok.inj decodedZero).symm
      rw [zero, KernelAccumulator.addOffset_zero] at offsetAdded
      simpa using Option.some.inj offsetAdded

/-! ## Sequences of bodies -/

/-- One accepted body and the way it was accepted. -/
inductive BodyStep where
  | validated (body : BlockBody) (height expectedReward : UInt64) (ctx : Bytes)
  | replayed (body : BlockBody) (height expectedReward : UInt64)

namespace BodyStep

def body : BodyStep → BlockBody
  | validated body _ _ _ => body
  | replayed body _ _ => body

def apply (step : BodyStep) (state : LedgerState P) :
    Guard.Outcome LedgerError (LedgerState P) :=
  match step with
  | validated body height expectedReward ctx =>
      state.applyBlock body height expectedReward ctx
  | replayed body height expectedReward =>
      state.applyBlockStateOnly body height expectedReward

end BodyStep

/-- Apply the bodies in turn, capturing an undo before each.  `none` when one is refused. -/
def playBodies : LedgerState P → List BodyStep → Option (LedgerState P × List StateUndo)
  | state, [] => some (state, [])
  | state, step :: rest =>
      match state.captureUndo step.body, step.apply state with
      | .ok undo, (.ok (), next) =>
          (playBodies next rest).map fun (last, undos) => (last, undo :: undos)
      | _, _ => none

/-- Some body creates the commitment, and neither it nor an earlier one spends it. -/
def Recreates (commit : Commitment) : List BodyStep → Prop
  | [] => False
  | step :: rest =>
      commit ∉ step.body.inputCommits ∧
        (commit ∈ step.body.outputCommits ∨ Recreates commit rest)

/-- What one accepted step does: it commits a body with the same commitments. -/
theorem BodyStep.apply_ok {state next : LedgerState P} (tracks : state.utxos.Tracks)
    {step : BodyStep} (applied : step.apply state = (.ok (), next)) :
    ∃ body height kernels supply, body.inputCommits = step.body.inputCommits ∧
      body.outputCommits = step.body.outputCommits ∧
      next = state.commit body height kernels supply := by
  cases step with
  | validated body height expectedReward ctx =>
      obtain ⟨coinbase, offset, staged, valid, rfl⟩ := (applyBlock_ok_iff tracks).mp applied
      exact ⟨_, height, staged.kernels, staged.supply, visibleBody_inputCommits _ _ _,
        visibleBody_outputCommits _ _ _, rfl⟩
  | replayed body height expectedReward =>
      obtain ⟨staged, validated, rfl⟩ := applyBlockStateOnly_ok_iff.mp applied
      exact ⟨body, height, staged.1, staged.2, rfl, rfl, rfl⟩

theorem playBodies_cons_eq_some {state last : LedgerState P} {step : BodyStep}
    {rest : List BodyStep} {undos : List StateUndo} :
    state.playBodies (step :: rest) = some (last, undos) ↔
      ∃ undo next later, state.captureUndo step.body = .ok undo ∧
        step.apply state = (.ok (), next) ∧ next.playBodies rest = some (last, later) ∧
        undos = undo :: later := by
  simp only [playBodies]
  constructor
  · intro played
    split at played
    next undo next captured applied =>
        obtain ⟨⟨reached, later⟩, playedRest, equal⟩ := Option.map_eq_some_iff.mp played
        obtain ⟨rfl, rfl⟩ := Prod.mk.inj equal
        exact ⟨undo, next, later, captured, applied, playedRest, rfl⟩
    next => contradiction
  · rintro ⟨undo, next, later, captured, applied, playedRest, rfl⟩
    simp [captured, applied, playedRest]

/-- Lookups after undoing a whole sequence: a commitment is lost exactly when the first
body that mentions it creates it without spending it. -/
theorem get_rewindAll {state last : LedgerState P} (tracks : state.utxos.Tracks)
    {steps : List BodyStep} {undos : List StateUndo}
    (played : state.playBodies steps = some (last, undos)) (commit : Commitment) :
    (Recreates commit steps →
      (UndoLog.rewindAll rewind undos last).utxos.get commit = none) ∧
    (¬Recreates commit steps →
      (UndoLog.rewindAll rewind undos last).utxos.get commit = state.utxos.get commit) := by
  induction steps generalizing state undos with
  | nil =>
      obtain ⟨rfl, rfl⟩ := Prod.mk.inj (Option.some.inj played)
      exact ⟨False.elim, fun _ => rfl⟩
  | cons step rest ih =>
      obtain ⟨undo, next, later, captured, applied, playedRest, rfl⟩ :=
        playBodies_cons_eq_some.mp played
      obtain ⟨present, nodup, rfl⟩ := captureUndo_eq_ok.mp captured
      obtain ⟨body, height, kernels, supply, inputs, outputs, rfl⟩ :=
        BodyStep.apply_ok tracks applied
      have tracksNext : (state.commit body height kernels supply).utxos.Tracks :=
        utxosAfter_tracks tracks body height
      obtain ⟨lost, kept⟩ := ih tracksNext playedRest
      simp only [UndoLog.rewindAll_cons, get_rewind_undoRecord present nodup, Recreates]
      by_cases spent : commit ∈ step.body.inputCommits
      · simp [spent]
      · by_cases created : commit ∈ step.body.outputCommits
        · simp [spent, created]
        · have untouched : (state.commit body height kernels supply).utxos.get commit =
              state.utxos.get commit :=
            get_utxosAfter_of_notMem height (by rwa [inputs]) (by rwa [outputs])
          simp only [spent, created, not_false_eq_true, true_and, false_or, if_false]
          exact ⟨lost, fun safe => (kept safe).trans untouched⟩

theorem tracks_of_playBodies {state last : LedgerState P} (tracks : state.utxos.Tracks)
    {steps : List BodyStep} {undos : List StateUndo}
    (played : state.playBodies steps = some (last, undos)) : last.utxos.Tracks := by
  induction steps generalizing state undos with
  | nil =>
      obtain ⟨rfl, rfl⟩ := Prod.mk.inj (Option.some.inj played)
      exact tracks
  | cons step rest ih =>
      obtain ⟨undo, next, later, captured, applied, playedRest, rfl⟩ :=
        playBodies_cons_eq_some.mp played
      obtain ⟨body, height, kernels, supply, _, _, rfl⟩ := BodyStep.apply_ok tracks applied
      exact ih (utxosAfter_tracks tracks body height) playedRest

theorem rewindAll_tracks {state : LedgerState P} (tracks : state.utxos.Tracks)
    (undos : List StateUndo) : (UndoLog.rewindAll rewind undos state).utxos.Tracks := by
  induction undos with
  | nil => exact tracks
  | cons undo rest ih => exact rewind_tracks ih undo

/-- Everything but the unspent set is restored whatever the bodies were. -/
theorem rewindAll_eq_with_utxos {state last : LedgerState P} (tracks : state.utxos.Tracks)
    {steps : List BodyStep} {undos : List StateUndo}
    (played : state.playBodies steps = some (last, undos)) :
    UndoLog.rewindAll rewind undos last =
      { state with utxos := (UndoLog.rewindAll rewind undos last).utxos } := by
  induction steps generalizing state undos with
  | nil =>
      obtain ⟨rfl, rfl⟩ := Prod.mk.inj (Option.some.inj played)
      rfl
  | cons step rest ih =>
      obtain ⟨undo, next, later, captured, applied, playedRest, rfl⟩ :=
        playBodies_cons_eq_some.mp played
      obtain ⟨_, _, rfl⟩ := captureUndo_eq_ok.mp captured
      obtain ⟨body, height, kernels, supply, _, _, rfl⟩ := BodyStep.apply_ok tracks applied
      have inner := ih (utxosAfter_tracks tracks body height) playedRest
      rw [UndoLog.rewindAll_cons]
      generalize UndoLog.rewindAll rewind later last = middle at inner
      have maturity : middle.coinbaseMaturity = state.coinbaseMaturity := by rw [inner]; rfl
      have binding : middle.bindingHeight = state.bindingHeight := by rw [inner]; rfl
      simp only [rewind, undoRecord, maturity, binding]

/-- Undoing a sequence of accepted bodies gives back the first state exactly, unless a
commitment of that state is re-created before anything spends it. -/
theorem rewind_exact_iff {state last : LedgerState P} (tracks : state.utxos.Tracks)
    {steps : List BodyStep} {undos : List StateUndo}
    (played : state.playBodies steps = some (last, undos)) :
    UndoLog.rewindAll rewind undos last = state ↔
      ∀ commit, Recreates commit steps → state.utxos.get commit = none := by
  constructor
  · intro exact commit recreated
    rw [← exact]
    exact (get_rewindAll tracks played commit).1 recreated
  · intro safe
    have lookups : ∀ commit, (UndoLog.rewindAll rewind undos last).utxos.get commit =
        state.utxos.get commit := by
      intro commit
      obtain ⟨lost, kept⟩ := get_rewindAll tracks played commit
      by_cases recreated : Recreates commit steps
      · rw [lost recreated, safe commit recreated]
      · exact kept recreated
    have utxos : (UndoLog.rewindAll rewind undos last).utxos = state.utxos :=
      (rewindAll_tracks (tracks_of_playBodies tracks played) undos).ext tracks
        (UtxoSet.entries_ext lookups)
    rw [rewindAll_eq_with_utxos tracks played, utxos]

/-- Was the step fully validated? -/
def BodyStep.isValidated : BodyStep → Bool
  | validated _ _ _ _ => true
  | replayed _ _ _ => false

/-- Validation refuses commitments that exist, so validated bodies re-create nothing. -/
theorem get_eq_none_of_recreates {state last : LedgerState P} (tracks : state.utxos.Tracks)
    {steps : List BodyStep} {undos : List StateUndo}
    (played : state.playBodies steps = some (last, undos))
    (validated : ∀ step ∈ steps, step.isValidated = true) {commit : Commitment}
    (recreated : Recreates commit steps) : state.utxos.get commit = none := by
  induction steps generalizing state undos with
  | nil => contradiction
  | cons step rest ih =>
      obtain ⟨undo, next, later, captured, applied, playedRest, rfl⟩ :=
        playBodies_cons_eq_some.mp played
      obtain ⟨notSpent, created | later⟩ := recreated
      · cases step with
        | replayed body height expectedReward =>
            have := validated _ List.mem_cons_self
            contradiction
        | validated body height expectedReward ctx =>
            obtain ⟨coinbase, offset, staged, valid, rfl⟩ := (applyBlock_ok_iff tracks).mp applied
            apply valid.created_fresh commit
            rw [visibleBody_outputCommits]
            exact created
      · obtain ⟨body, height, kernels, supply, inputs, outputs, rfl⟩ :=
          BodyStep.apply_ok tracks applied
        have gone := ih (utxosAfter_tracks tracks body height) playedRest
          (fun other member => validated other (List.mem_cons_of_mem _ member)) later
        rw [commit_utxos] at gone
        by_cases created : commit ∈ body.outputCommits
        · have found : ((state.utxosAfter body height).get commit).isSome :=
            isSome_get_utxosAfter_of_created height created
          simp [gone] at found
        · rwa [get_utxosAfter_of_notMem height (by rwa [inputs]) created] at gone

end LedgerState

end Nightfall
