import Nightfall.Consensus.Steps

/-!
# Bodies and their headers

A block hash covers the header alone.  Full validation compares the body with the body
root, the replay of trusted blocks does not: a candidate that shares our hashes over a
prefix brings its own bodies along.
-/

namespace Nightfall

variable (P : Primitives)

/-- The body of a block is the one that its header commits to. -/
def BodyMatches (block : Block) : Prop :=
  block.body.hash P = block.header.bodyRoot

instance (block : Block) : Decidable (BodyMatches P block) :=
  inferInstanceAs (Decidable (_ = _))

variable {P}

/-- Every kept body is the one that its header commits to. -/
def Chain.BodiesMatch (chain : Chain P) : Prop :=
  ∀ block ∈ chain.blocks, BodyMatches P block

instance (chain : Chain P) : Decidable chain.BodiesMatch :=
  inferInstanceAs (Decidable (∀ block ∈ chain.blocks, BodyMatches P block))

/-- The blocks of a candidate that a reorg replays as its own history. -/
def Chain.trustedPart (chain : Chain P) (blocks : List Block) : List Block :=
  blocks.take (chain.trustedPrefix blocks)

/-- The operation replays no body that its header does not commit to. -/
def Op.OwnBodies (chain : Chain P) : Op → Prop
  | applyBlockFromOwnDisk block => BodyMatches P (chain.storedForm block)
  | maybeReorgTo blocks _ =>
      ∀ block ∈ chain.trustedPart blocks, BodyMatches P (chain.storedForm block)
  | _ => True

instance (chain : Chain P) (op : Op) : Decidable (op.OwnBodies chain) :=
  match op with
  | .applyBlock _ _ => isTrue trivial
  | .applyBlockLocallyTrusted _ _ => isTrue trivial
  | .applyBlockFromOwnDisk block =>
      inferInstanceAs (Decidable (BodyMatches P (chain.storedForm block)))
  | .tryIngestBlocks _ _ => isTrue trivial
  | .maybeReorgTo blocks _ =>
      inferInstanceAs (Decidable
        (∀ block ∈ chain.trustedPart blocks, BodyMatches P (chain.storedForm block)))
  | .pruneKeep _ => isTrue trivial
  | .prepareSuffixTrial _ => isTrue trivial
  | .finishSuffix _ _ _ => isTrue trivial
  | .spliceSuffix _ => isTrue trivial

namespace Chain

variable {chain : Chain P}

theorem Accepted.bodyMatches {block : Block} {nowUnix : UInt64} {verifyPow : Bool}
    {ledger : LedgerState P} {undo : StateUndo}
    (accepted : chain.Accepted block nowUnix verifyPow ledger undo) : BodyMatches P block := by
  have checked := checkBlock_eq_ok.mp accepted.checked
  exact checked.2.2.2.2.2.2.2.2.2.2.2

theorem BodiesMatch.extend (bodies : chain.BodiesMatch) {block : Block}
    (matching : BodyMatches P block) (ledger : LedgerState P) (undo : StateUndo) :
    (chain.extend block ledger undo).BodiesMatch := by
  intro other member
  rw [extend_blocks] at member
  rcases List.mem_append.mp member with old | new
  · exact bodies other old
  · obtain rfl := List.mem_singleton.mp new
    exact matching

theorem BodiesMatch.applyBlockInner (bodies : chain.BodiesMatch) (tracked : chain.Tracked)
    (block : Block) (nowUnix : UInt64) (verifyPow : Bool) :
    (chain.applyBlockInner block nowUnix verifyPow).2.BodiesMatch := by
  rw [applyBlockInner_eq tracked.ledger]
  cases judged : chain.verdict (chain.storedForm block) nowUnix verifyPow with
  | error error => exact bodies
  | ok accepted => exact bodies.extend (verdict_eq_ok.mp judged).bodyMatches _ _

theorem BodiesMatch.applyBlockFromOwnDisk (bodies : chain.BodiesMatch) {block : Block}
    (matching : BodyMatches P (chain.storedForm block)) :
    (chain.applyBlockFromOwnDisk block).2.BodiesMatch := by
  rw [applyBlockFromOwnDisk_eq]
  cases chain.ownDiskVerdict (chain.storedForm block) with
  | error error => exact bodies
  | ok replayed => exact bodies.extend matching _ _

theorem BodiesMatch.ingestFrom {nowUnix : UInt64} (bodies : chain.BodiesMatch)
    (tracked : chain.Tracked) (count : Nat) (blocks : List Block) :
    (ingestFrom nowUnix count chain blocks).2.BodiesMatch := by
  let holds (current : Chain P) : Prop := current.Tracked ∧ current.BodiesMatch
  have start : holds chain := ⟨tracked, bodies⟩
  have kept (current : Chain P) (block : Block) (before : holds current) :
      holds (current.applyBlock block nowUnix).2 :=
    ⟨before.1.applyBlockInner block nowUnix true,
      before.2.applyBlockInner before.1 block nowUnix true⟩
  exact (ingestFrom_induction kept start count blocks).2

/-- A replayed candidate holds its blocks in stored form, and the ones past the trusted
prefix have been compared with their body roots. -/
theorem blocks_of_replayFrom {trustedPrefix index : Nat} {nowUnix : UInt64}
    {last : Chain P} {blocks : List Block} (tracked : chain.Tracked)
    (rebuilt : replayFrom trustedPrefix nowUnix index chain blocks = .ok last) :
    last.blocks = chain.blocks ++ blocks.map chain.storedForm ∧
      ∀ block ∈ blocks.drop (trustedPrefix - index), BodyMatches P (chain.storedForm block) := by
  induction blocks generalizing chain index with
  | nil =>
      obtain rfl := Except.ok.inj rebuilt
      simp
  | cons block rest ih =>
      simp only [replayFrom] at rebuilt
      split at rebuilt
      next trusted =>
          simp only [Guard.bind_eq_ok, Guard.toExcept_eq_ok] at rebuilt
          obtain ⟨next, accepted, rebuiltRest⟩ := rebuilt
          have nextTracked := tracked.applyBlockFromOwnDisk block
          rw [accepted] at nextTracked
          obtain ⟨blocks, checked⟩ := ih nextTracked rebuiltRest
          have network := (applyBlockFromOwnDisk_network accepted).1
          rw [applyBlockFromOwnDisk_eq, settle_eq_ok] at accepted
          obtain ⟨ledger, undo, _, rfl⟩ := accepted
          rw [storedForm_of_network_eq network] at blocks checked
          have deeper : trustedPrefix - index = trustedPrefix - (index + 1) + 1 := by omega
          rw [deeper, List.drop_succ_cons]
          exact ⟨by simpa using blocks, checked⟩
      next untrusted =>
          simp only [Guard.bind_eq_ok, Guard.toExcept_eq_ok] at rebuilt
          obtain ⟨_, _, next, accepted, rebuiltRest⟩ := rebuilt
          have nextTracked := tracked.applyBlockInner block nowUnix true
          rw [← Chain.applyBlock, accepted] at nextTracked
          obtain ⟨blocks, checked⟩ := ih nextTracked rebuiltRest
          have network := (applyBlockInner_network tracked.ledger accepted).1
          rw [applyBlock_eq tracked.ledger, settle_eq_ok] at accepted
          obtain ⟨ledger, undo, judged, rfl⟩ := accepted
          rw [storedForm_of_network_eq network] at blocks checked
          have none : trustedPrefix - index = 0 := by omega
          have later : trustedPrefix - (index + 1) = 0 := by omega
          rw [none, List.drop_zero]
          rw [later, List.drop_zero] at checked
          refine ⟨by simpa using blocks, ?_⟩
          intro other member
          rcases List.mem_cons.mp member with rfl | inRest
          · exact (verdict_eq_ok.mp judged).bodyMatches
          · exact checked other inRest

/-- An adopted candidate matches its headers exactly when its trusted part does. -/
theorem bodiesMatch_evaluated {candidate : Chain P} {blocks : List Block} {nowUnix : UInt64}
    (tracked : chain.Tracked)
    (won : evaluateReorgAt chain.network chain.totalWork chain.hashChain chain.prunedBase
      blocks nowUnix = .ok (some candidate)) :
    candidate.BodiesMatch ↔
      ∀ block ∈ chain.trustedPart blocks, BodyMatches P (chain.storedForm block) := by
  obtain ⟨kept, checked⟩ :=
    blocks_of_replayFrom tracked.replayStart (replayFrom_of_evaluated won)
  rw [storedForm_of_network_eq chain.replayStart_network] at kept checked
  rw [replayStart_blocks, List.nil_append] at kept
  rw [trustedPart, BodiesMatch, kept]
  constructor
  · intro bodies block member
    exact bodies _ (List.mem_map_of_mem (List.mem_of_mem_take member))
  · intro trustedMatch block member
    obtain ⟨raw, inBlocks, rfl⟩ := List.mem_map.mp member
    rw [← List.take_append_drop (chain.trustedPrefix blocks) blocks] at inBlocks
    rcases List.mem_append.mp inBlocks with front | back
    · exact trustedMatch raw front
    · exact checked raw back

/-- The outcome of a candidate reorg, with the fork choice already made. -/
theorem maybeReorgTo_eq (chain : Chain P) (blocks : List Block) (nowUnix : UInt64) :
    chain.maybeReorgTo blocks nowUnix =
      match evaluateReorgAt chain.network chain.totalWork chain.hashChain chain.prunedBase
        blocks nowUnix with
      | .error error => (.error error, chain)
      | .ok none => (.ok false, chain)
      | .ok (some candidate) => (.ok true, candidate) := by
  unfold maybeReorgTo
  cases evaluated : evaluateReorgAt chain.network chain.totalWork chain.hashChain
      chain.prunedBase blocks nowUnix with
  | error error => rfl
  | ok winner =>
      cases winner with
      | none => rfl
      | some candidate =>
          have heavier := (evaluateReorgAt_eq_some.mp evaluated).2.2.2.2.2.2
          simp [adoptReorg, heavier]

theorem BodiesMatch.maybeReorgTo (bodies : chain.BodiesMatch) (tracked : chain.Tracked)
    {blocks : List Block} {nowUnix : UInt64}
    (own : ∀ block ∈ chain.trustedPart blocks, BodyMatches P (chain.storedForm block)) :
    (chain.maybeReorgTo blocks nowUnix).2.BodiesMatch := by
  rw [maybeReorgTo_eq]
  split
  · exact bodies
  · exact bodies
  next candidate won => exact (bodiesMatch_evaluated tracked won).mpr own

theorem BodiesMatch.pruneKeep (bodies : chain.BodiesMatch) (keep : Nat) :
    (chain.pruneKeep keep).2.BodiesMatch := by
  simp only [Chain.pruneKeep]
  split
  · exact bodies
  · split
    · exact bodies
    · intro block member
      exact bodies block (List.mem_of_mem_drop member)

theorem BodiesMatch.spliceSuffix (bodies : chain.BodiesMatch) {reorg : SuffixReorg P}
    (suffix : ∀ block ∈ reorg.suffix, BodyMatches P block) :
    (chain.spliceSuffix reorg).2.BodiesMatch := by
  unfold Chain.spliceSuffix
  split
  · exact bodies
  split
  · exact bodies
  · intro block member
    rcases List.mem_append.mp member with old | new
    · exact bodies block (List.mem_of_mem_take old)
    · exact suffix block new

/-- Every block of a finished suffix was validated in full. -/
theorem finishSuffix_bodiesMatch {trial : SuffixTrial P} (tracked : trial.trial.Tracked)
    (bodies : trial.trial.BodiesMatch) {suffix : List Block} {nowUnix : UInt64}
    {reorg : SuffixReorg P} (finished : finishSuffix trial suffix nowUnix = .ok (some reorg)) :
    ∀ block ∈ reorg.suffix, BodyMatches P block := by
  obtain ⟨_, _, last, reached, _, rfl⟩ := finishSuffix_eq_some.mp finished
  let holds (current : Chain P) : Prop := current.Tracked ∧ current.BodiesMatch
  have start : holds trial.trial := ⟨tracked, bodies⟩
  have kept (current : Chain P) (block : Block) (next : Chain P) (before : holds current)
      (accepted : current.applyBlock block nowUnix = (.ok (), next)) : holds next := by
    have nextTracked := before.1.applyBlockInner block nowUnix true
    have nextBodies := before.2.applyBlockInner before.1 block nowUnix true
    rw [← Chain.applyBlock, accepted] at nextTracked nextBodies
    exact ⟨nextTracked, nextBodies⟩
  exact (applyAll_induction kept start reached).2

end Chain

/-! ## Runs -/

/-- The invariant of a node that replays only its own bodies. -/
structure Node.BodiesMatch (node : Node P) : Prop where
  tracked : node.chain.Tracked
  bodies : node.chain.BodiesMatch
  trials : ∀ trial ∈ node.trials, trial.trial.Tracked ∧ trial.trial.BodiesMatch
  reorgs : ∀ reorg ∈ node.reorgs, reorg.ledger.utxos.Tracks ∧
    ∀ block ∈ reorg.suffix, BodyMatches P block

theorem Node.bodiesMatch_start (network : NetworkId) : (Node.start P network).BodiesMatch where
  tracked := Chain.tracked_newFair network
  bodies := by simp [Node.start, Chain.BodiesMatch, Chain.newFair]
  trials := by simp [Node.start]
  reorgs := by simp [Node.start]

/-- Every operation that replays only its own bodies keeps the invariant. -/
theorem Node.BodiesMatch.step {node : Node P} (holds : node.BodiesMatch) {op : Op}
    (own : op.OwnBodies node.chain) : (node.step op).BodiesMatch := by
  obtain ⟨tracked, bodies, trials, reorgs⟩ := holds
  cases op with
  | applyBlock block nowUnix =>
      exact ⟨tracked.applyBlockInner block nowUnix true,
        bodies.applyBlockInner tracked block nowUnix true, trials, reorgs⟩
  | applyBlockLocallyTrusted block nowUnix =>
      exact ⟨tracked.applyBlockInner block nowUnix false,
        bodies.applyBlockInner tracked block nowUnix false, trials, reorgs⟩
  | applyBlockFromOwnDisk block =>
      exact ⟨tracked.applyBlockFromOwnDisk block, bodies.applyBlockFromOwnDisk own, trials, reorgs⟩
  | tryIngestBlocks blocks nowUnix =>
      exact ⟨(Chain.ingestFrom_sameNetwork tracked 0 blocks).1,
        bodies.ingestFrom tracked 0 blocks, trials, reorgs⟩
  | maybeReorgTo blocks nowUnix =>
      exact ⟨tracked.maybeReorgTo blocks nowUnix, bodies.maybeReorgTo tracked own, trials, reorgs⟩
  | pruneKeep keep => exact ⟨tracked.pruneKeep keep, bodies.pruneKeep keep, trials, reorgs⟩
  | prepareSuffixTrial ancestorHeight =>
      simp only [Node.step]
      cases prepared : node.chain.prepareSuffixTrial ancestorHeight with
      | error error => exact ⟨tracked, bodies, trials, reorgs⟩
      | ok trial =>
          refine ⟨tracked, bodies, ?_, reorgs⟩
          intro other member
          rcases List.mem_append.mp member with old | new
          · exact trials other old
          · obtain rfl := List.mem_singleton.mp new
            refine ⟨Chain.prepareSuffixTrial_tracks tracked.ledger prepared, ?_⟩
            simp only [Chain.prepareSuffixTrial, Guard.bind_eq_ok, Except.ok.injEq] at prepared
            obtain ⟨_, _, _, _, _, _, _, _, _, _, rfl⟩ := prepared
            simp [Chain.BodiesMatch, Chain.newFair]
  | finishSuffix position suffix nowUnix =>
      simp only [Node.step]
      cases found : node.trials[position]? with
      | none => exact ⟨tracked, bodies, trials, reorgs⟩
      | some trial =>
          have fewer : ∀ other ∈ node.trials.eraseIdx position,
              other.trial.Tracked ∧ other.trial.BodiesMatch :=
            fun other member => trials other (List.mem_of_mem_eraseIdx member)
          simp only
          split
          next reorg finished =>
              refine ⟨tracked, bodies, fewer, ?_⟩
              intro other member
              rcases List.mem_append.mp member with old | new
              · exact reorgs other old
              · obtain rfl := List.mem_singleton.mp new
                obtain ⟨trialTracked, trialBodies⟩ := trials trial (List.mem_of_getElem? found)
                exact ⟨Chain.finishSuffix_tracks trialTracked finished,
                  Chain.finishSuffix_bodiesMatch trialTracked trialBodies finished⟩
          next => exact ⟨tracked, bodies, fewer, reorgs⟩
  | spliceSuffix position =>
      simp only [Node.step]
      cases found : node.reorgs[position]? with
      | none => exact ⟨tracked, bodies, trials, reorgs⟩
      | some reorg =>
          obtain ⟨tracks, suffix⟩ := reorgs reorg (List.mem_of_getElem? found)
          exact ⟨Chain.spliceSuffix_tracked tracked tracks, bodies.spliceSuffix suffix, trials,
            fun other member => reorgs other (List.mem_of_mem_eraseIdx member)⟩

/-- A run whose steps replay only matching bodies. -/
def OwnBodiesAlong (P : Primitives) (network : NetworkId) (ops : List Op) : Prop :=
  GuardedRun.Along Node.step (fun node op => op.OwnBodies node.chain) (Node.start P network) ops

instance (network : NetworkId) (ops : List Op) : Decidable (OwnBodiesAlong P network ops) :=
  inferInstanceAs (Decidable (GuardedRun.Along _ _ _ _))

theorem Node.bodiesMatch_run {network : NetworkId} {ops : List Op}
    (own : OwnBodiesAlong P network ops) : ((Node.start P network).run ops).BodiesMatch :=
  own.invariant (Node.bodiesMatch_start network) fun _ _ holds allowed => holds.step allowed

/-- As long as every body that is replayed as our own matches its header, every kept body
does.  A candidate that is adopted although its trusted part does not match breaks this. -/
theorem Node.kept_bodies_match (network : NetworkId) (ops : List Op)
    (own : OwnBodiesAlong P network ops) :
    let chain := ((Node.start P network).run ops).chain
    chain.BodiesMatch ∧
      ∀ blocks nowUnix, (chain.maybeReorgTo blocks nowUnix).1 = .ok true →
        ((chain.maybeReorgTo blocks nowUnix).2.BodiesMatch ↔
          (Op.maybeReorgTo blocks nowUnix).OwnBodies chain) := by
  have holds := Node.bodiesMatch_run own
  refine ⟨holds.bodies, ?_⟩
  intro blocks nowUnix adopted
  rw [Chain.maybeReorgTo_eq] at adopted ⊢
  split at adopted
  · simp at adopted
  · simp at adopted
  next candidate won => exact Chain.bodiesMatch_evaluated holds.tracked won

open Sample in
/-- A longer list with the same first block is adopted, and its bodies match. -/
theorem Node.kept_bodies_match_honest :
    ((Node.start primitives .devnet).run honestOps).chain.BodiesMatch :=
  (Node.kept_bodies_match .devnet honestOps (by decide +kernel)).1

open Sample in
/-- A candidate that shares the header of our second block, with an output added to its
body, is adopted with that body. -/
theorem Node.altered_body_kept :
    ¬((Node.start primitives .devnet).run alteredOps).chain.BodiesMatch := by
  decide +kernel

end Nightfall
