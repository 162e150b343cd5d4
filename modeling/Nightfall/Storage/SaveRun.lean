import Nightfall.Consensus.Rewind
import Nightfall.Storage.Appends
import Nightfall.Storage.PrunedSurvival
import Nightfall.Storage.Tips

/-!
# Runs of saves

One process works on its chain and saves it again and again, and some of the saves fail.
`saves_load_back_iff` says which completed saves load back, and `saves_after_failures` which
of the ones that follow a failed save do.
-/

namespace Nightfall

open Files

variable {P : Primitives}

/-- A node next to its data directory. -/
structure StoredNode (P : Primitives) where
  node : Node P
  dir : Datadir
  /-- What the last completed save was given. -/
  saved : Option (Chain P)

/-- What a process does. -/
inductive ProcessOp where
  | work (op : Op)
  | save (draw : Bytes)
  /-- A save that returns an error and leaves these files. -/
  | failedSave (draw : Bytes) (left : Datadir)

/-- The work of a process. -/
def ProcessOp.works (ops : List ProcessOp) : List Op :=
  ops.filterMap fun
    | .work op => some op
    | .save _ => none
    | .failedSave _ _ => none

namespace StoredNode

variable (S : Serde)

/-- The save that the process would make now. -/
def plan (draw : Bytes) (state : StoredNode P) : SavePlan :=
  state.dir.save S draw state.node.chain

def step (state : StoredNode P) : ProcessOp → StoredNode P
  | .work op => { state with node := state.node.step op }
  | .save draw =>
      { state with
        dir := state.dir.after (state.plan S draw).effects
        saved := if (state.plan S draw).verdict = .ok () then some state.node.chain
          else state.saved }
  | .failedSave _ left => { state with dir := left }

variable (P) in
/-- A process that starts beside a directory. -/
def start (network : NetworkId) (dir : Datadir) : StoredNode P :=
  ⟨Node.start P network, dir, none⟩

def run (state : StoredNode P) (ops : List ProcessOp) : StoredNode P :=
  GuardedRun.run (step S) state ops

/-- The files that a start finds give this chain back. -/
def LoadsBack (network : NetworkId) (files : Datadir) (chain : Chain P) : Prop :=
  ∀ env : LoadEnv, ∃ loaded repaired,
    files.loadOrNew P S env network = (.ok loaded, repaired) ∧
      loaded.withoutUndos = chain.withoutUndos

/-- The blocks of the chain have records that fit the block file, and the file is not taken
for a JSON text. -/
structure Recordable (state : StoredNode P) : Prop where
  storable : ∀ block ∈ state.node.chain.blocks, S.Storable state.dir.format block
  legible : S.Legible state.dir.format state.node.chain.blocks

variable {S} {state : StoredNode P} {draw : Bytes} {network : NetworkId} {known : Set BlockHeader}
  {ops : List ProcessOp} {cond : Node P → Op → Prop}

/-- A condition on the work is one on the whole process. -/
theorem along_works (along : GuardedRun.Along Node.step cond state.node (ProcessOp.works ops)) :
    GuardedRun.Along (step S) (fun state op => ∀ work, op = .work work → cond state.node work)
      state ops := by
  induction ops generalizing state with
  | nil => trivial
  | cons op rest ih =>
      cases op with
      | work op =>
          obtain ⟨here, later⟩ := along
          refine ⟨fun work same => ?_, ih later⟩
          obtain rfl := ProcessOp.work.inj same
          exact here
      | save draw => exact ⟨(fun work same => by cases same), ih along⟩
      | failedSave draw left => exact ⟨(fun work same => by cases same), ih along⟩

/-! ## Sound chains -/

/-- The chain of the process can be restored, and no recovery was interrupted beside it. -/
structure Sound (known : Set BlockHeader) (network : NetworkId) (state : StoredNode P) : Prop where
  holds : ∃ full, state.node.Holds (exactRelation P) known network full
  base : state.node.KeepsBase
  tip : state.node.KeepsTip
  journal : state.dir .recoveryJournal = none

theorem Sound.restorable (sound : state.Sound known network) :
    ∃ full, state.node.chain.Restorable full := by
  obtain ⟨full, holds⟩ := sound.holds
  exact ⟨full, holds.restorable sound.base sound.tip⟩

theorem Sound.sameNetwork (sound : state.Sound known network) :
    state.node.chain.network = network := by
  obtain ⟨full, holds⟩ := sound.holds
  exact holds.sameNetwork

theorem sound_start {dir : Datadir} (journal : dir .recoveryJournal = none) :
    (start P network dir).Sound known network where
  holds := ⟨[], Node.holds_start _ _ _⟩
  base := Node.keepsBase_start network
  tip := Node.keepsTip_start network
  journal := journal

theorem journal_of_interrupted {left : Datadir}
    (interrupted : Interrupted state.dir (state.plan S draw).effects left) :
    left .recoveryJournal = state.dir .recoveryJournal := by
  apply Datadir.sameBut_interrupted_save interrupted
  have path : state.dir.blocksPath ≠ .recoveryJournal := Datadir.blocksPath_ne (by simp) (by simp)
  simp [Datadir.savedFiles, Datadir.scratch, path.symm]

/-- The work of a process keeps its chain sound. -/
theorem Sound.work (sound : state.Sound known network)
    (collisionFree : Set.InjOn (BlockHeader.hash P) known) {op : Op}
    (admissible : Admissible (exactRelation P) known state.node op)
    (validates : op.Validates = true) : (state.step S (.work op)).Sound known network := by
  obtain ⟨full, holds⟩ := sound.holds
  obtain ⟨next, nextHolds, _⟩ := holds.step collisionFree admissible
  exact ⟨⟨next, nextHolds⟩, (sound.base.step holds op).1, sound.tip.step sound.base holds validates,
    sound.journal⟩

theorem Sound.save (sound : state.Sound known network) :
    (state.step S (.save draw)).Sound known network :=
  ⟨sound.holds, sound.base, sound.tip,
    (journal_of_interrupted (Interrupted.whole _ _)).trans sound.journal⟩

theorem Sound.failedSave (sound : state.Sound known network) {left : Datadir}
    (interrupted : Interrupted state.dir (state.plan S draw).effects left) :
    (state.step S (.failedSave draw left)).Sound known network :=
  ⟨sound.holds, sound.base, sound.tip, (journal_of_interrupted interrupted).trans sound.journal⟩

/-- A save that continues the block file loads back. -/
theorem Sound.loadsBack (sound : state.Sound known network) (isDraw : Datadir.IsDraw draw)
    (recordable : state.Recordable S) (continues : state.dir.Continues S state.node.chain) :
    (state.plan S draw).verdict = .ok () ∧
      Datadir.Committed S (state.dir.after (state.plan S draw).effects)
        (state.dir.installId draw).1 state.node.chain ∧
      LoadsBack S network (state.dir.after (state.plan S draw).effects) state.node.chain := by
  obtain ⟨full, restorable⟩ := sound.restorable
  obtain ⟨done, committed⟩ := Datadir.save_commits isDraw sound.journal restorable
    recordable.storable continues
  refine ⟨done, committed, fun env => ?_⟩
  have format : (state.dir.after (state.plan S draw).effects).format = state.dir.format :=
    Datadir.format_save
  have stores : state.node.chain.Stores S (state.dir.after (state.plan S draw).effects).format full := by
    rw [format]
    exact ⟨restorable, recordable.storable, recordable.legible, sound.base.body⟩
  obtain ⟨last, loaded, same⟩ := @Datadir.Committed.load P S _ _ env _ _ committed stores
  rw [sound.sameNetwork] at loaded
  exact ⟨last, _, loaded, same⟩

/-- A step whose work is admissible and validates what it appends, and whose save draws an
id. -/
structure Allowed (known : Set BlockHeader) (state : StoredNode P) (op : ProcessOp) : Prop where
  admissible : ∀ work, op = .work work → Admissible (exactRelation P) known state.node work
  validates : ∀ work, op = .work work → work.Validates = true
  isDraw : ∀ draw, op = .save draw → Datadir.IsDraw draw

theorem allowed_of_run {dir : Datadir} (fits : FitsAlong (P := P) network (ProcessOp.works ops))
    (overwrites : OverwritesNothingAlong P network (ProcessOp.works ops))
    (validates : ∀ op ∈ ProcessOp.works ops, op.Validates = true)
    (draws : ∀ draw, .save draw ∈ ops → Datadir.IsDraw draw) :
    GuardedRun.Along (step S) (Allowed (offeredHeaders (ProcessOp.works ops)))
      (start P network dir) ops := by
  have admissible := @along_works P S (start P network dir) ops _
    (admissible_of_fitsAlong (R := exactRelation P) fits overwrites)
  have validated := @along_works P S (start P network dir) ops _
    (GuardedRun.Along.of_forall_mem _ validates)
  have drawn := @GuardedRun.Along.of_forall_mem _ _ (step S) _ (start P network dir) _
    fun op (member : op ∈ ops) draw (same : op = .save draw) => draws draw (same ▸ member)
  exact (admissible.and (validated.and drawn)).mono
    fun _ _ ⟨admissible, validates, isDraw⟩ => ⟨admissible, validates, isDraw⟩

/-! ## Runs without a failed save -/

/-- A save finds the bodies of the last completed save at the front of the chain, or writes
the block file anew. -/
def Continuing (S : Serde) (state : StoredNode P) : Prop :=
  state.dir.rewrites S state.node.chain = true ∨
    ∀ saved, state.saved = some saved → saved.blocks <+: state.node.chain.blocks

/-- The saves of a run get to their end, record what they are given and continue what was
saved. -/
def SavesContinue (S : Serde) (state : StoredNode P) : ProcessOp → Prop
  | .work _ => True
  | .save _ => state.Recordable S ∧ state.Continuing S
  | .failedSave _ _ => False

/-- The directory is the one that the last completed save left, or it never held a chain. -/
structure Published (S : Serde) (state : StoredNode P) : Prop where
  unsaved : state.saved = none → state.dir state.dir.blocksPath = none
  saved : ∀ saved, state.saved = some saved → ∃ id full,
    Datadir.Committed S state.dir id saved ∧ saved.Restorable full ∧
      (∀ block ∈ saved.blocks, S.Storable state.dir.format block) ∧
      Chain.BaseAdvances saved state.node.chain

/-- Without a failed save the block file holds the bodies of the last completed one. -/
theorem Published.continues (published : state.Published S) (continuing : state.Continuing S) :
    state.dir.Continues S state.node.chain := by
  intro kept
  have prefixed := continuing.resolve_left (by simp [kept])
  cases found : state.saved with
  | none =>
      have missing := published.unsaved found
      have anew : state.dir.rewrites S state.node.chain = true := by
        unfold Datadir.rewrites
        split_ifs <;> simp [Datadir.savesAnew, Datadir.savesBodiesAnew, missing]
      rw [anew] at kept
      cases kept
  | some saved =>
      obtain ⟨id, full, committed, restorable, -, advances⟩ := published.saved saved found
      have first : state.node.chain.firstHeight = saved.firstHeight := by
        rcases advances with same | ⟨_, higher⟩
        · exact same.firstHeight
        · by_contra differs
          have pruned : state.node.chain.isPruned = true := by
            simp only [Chain.isPruned, decide_eq_true_eq]
            omega
          have anew : state.dir.savesBodiesAnew S state.node.chain = true := by
            simp [Datadir.savesBodiesAnew, committed.record, Datadir.metaOf, Ne.symm differs]
          rw [Datadir.rewrites, if_pos pruned, anew] at kept
          cases kept
      have stored : state.dir.storedBlockCount S - state.node.chain.firstHeight =
          saved.blocks.length := by
        rw [restorable.length_blocks, first, Datadir.storedBlockCount, committed.record]
        rfl
      rw [stored, ← List.prefix_iff_eq_take.mp (prefixed saved found)]
      exact committed.bodies

theorem published_start {dir : Datadir} (missing : dir dir.blocksPath = none) :
    (start P network dir).Published S where
  unsaved := fun _ => missing
  saved := fun saved found => by cases found

theorem Published.work (published : state.Published S)
    {full : List Block} (holds : state.node.Holds (exactRelation P) known network full)
    (base : state.node.KeepsBase) (op : Op) : (state.step S (.work op)).Published S where
  unsaved := published.unsaved
  saved := fun saved found => by
    obtain ⟨id, history, committed, restorable, storable, advances⟩ := published.saved saved found
    exact ⟨id, history, committed, restorable, storable, advances.trans (base.step holds op).2⟩

theorem Published.save {full : List Block} (committed : Datadir.Committed S
      (state.dir.after (state.plan S draw).effects) (state.dir.installId draw).1 state.node.chain)
    (restorable : state.node.chain.Restorable full) (recordable : state.Recordable S)
    (done : (state.plan S draw).verdict = .ok ()) :
    (state.step S (.save draw)).Published S := by
  have format : (state.dir.after (state.plan S draw).effects).format = state.dir.format :=
    Datadir.format_save
  constructor
  · intro none
    simp only [step, done, if_true, reduceCtorEq] at none
  · intro saved found
    simp only [step, done, if_true, Option.some.injEq] at found
    obtain rfl := found
    refine ⟨_, full, committed, restorable, ?_, .refl _⟩
    intro block member
    change S.Storable (state.dir.after (state.plan S draw).effects).format block
    rw [format]
    exact recordable.storable block member

/-- The bodies of a restorable chain are in stored form. -/
theorem storedForm_blocks {chain : Chain P} {full : List Block} (restorable : chain.Restorable full)
    (same : chain.network = network) :
    chain.blocks.map (Chain.newFair P network).storedForm = chain.blocks := by
  have describes := restorable.holds.follows.describes
  refine (List.map_congr_left fun block member => ?_).trans (List.map_id _)
  rw [describes.blocks] at member
  refine Chain.storedForm_of_stored ?_
  rw [← same]
  exact describes.linked.forall_mem (fun _ _ links => links.stored) block
    (List.mem_of_mem_drop member)

/-- A save that loads back continues what was saved. -/
theorem Published.continuing (published : state.Published S) (sound : state.Sound known network)
    (recordable : state.Recordable S)
    (back : LoadsBack S network (state.dir.after (state.plan S draw).effects) state.node.chain) :
    state.Continuing S := by
  by_cases anew : state.dir.rewrites S state.node.chain = true
  · exact .inl anew
  · refine .inr fun saved found => ?_
    obtain ⟨id, full, committed, restorable, storable, advances⟩ := published.saved saved found
    obtain ⟨history, sane⟩ := sound.restorable
    obtain ⟨loaded, repaired, opened, same⟩ := back ⟨0, 0, []⟩
    rw [← sound.sameNetwork] at opened
    have held := committed.blocks_of_kept sane storable recordable.storable
      (by simpa using anew) opened
    have blocks : loaded.withoutUndos.blocks = state.node.chain.withoutUndos.blocks :=
      congrArg Chain.blocks same
    rw [List.map_append, storedForm_blocks restorable advances.network.symm] at held
    exact ⟨_, held.symm.trans blocks⟩

/-- A run without a failed save keeps the chain sound and the directory published. -/
theorem sound_published_of_along {dir : Datadir} (journal : dir .recoveryJournal = none)
    (missing : dir dir.blocksPath = none) (injective : Set.InjOn (BlockHeader.hash P) known)
    (along : GuardedRun.Along (step S)
      (fun state op => Allowed known state op ∧ SavesContinue S state op)
      (start P network dir) ops) :
    ((start P network dir).run S ops).Sound known network ∧
      ((start P network dir).run S ops).Published S := by
  let good (state : StoredNode P) : Prop := state.Sound known network ∧ state.Published S
  have initially : good (start P network dir) := ⟨sound_start journal, published_start missing⟩
  refine @GuardedRun.Along.invariant _ _ (step S) _ good _ _ along initially ?_
  rintro state op ⟨sound, published⟩ ⟨allowed, continued⟩
  cases op with
  | work op =>
      obtain ⟨full, holds⟩ := sound.holds
      exact ⟨sound.work injective (allowed.admissible op rfl) (allowed.validates op rfl),
        published.work holds sound.base op⟩
  | save draw =>
      obtain ⟨recordable, continuing⟩ := continued
      obtain ⟨full, restorable⟩ := sound.restorable
      obtain ⟨done, committed, -⟩ := sound.loadsBack (allowed.isDraw draw rfl) recordable
        (published.continues continuing)
      exact ⟨sound.save, .save committed restorable recordable done⟩
  | failedSave draw left => exact continued.elim

/-- In every run without a failed save, whose reorgs replay no body that re-creates an unspent
commitment and whose saves record their chain and continue what was saved, every save gets to
its end and every start after it gets the whole chain back.  After such a run, the next save
does so exactly when it continues what was saved. -/
theorem saves_load_back_iff {dir : Datadir} (journal : dir .recoveryJournal = none)
    (missing : dir dir.blocksPath = none)
    (collisionFree : CollisionFree P (ProcessOp.works ops))
    (fits : FitsAlong (P := P) network (ProcessOp.works ops))
    (overwrites : OverwritesNothingAlong P network (ProcessOp.works ops))
    (validates : ∀ op ∈ ProcessOp.works ops, op.Validates = true)
    (draws : ∀ draw, .save draw ∈ ops → Datadir.IsDraw draw)
    (continued : GuardedRun.Along (step S) (SavesContinue S) (start P network dir) ops) :
    (∀ before draw after, ops = before ++ .save draw :: after →
      let state := (start P network dir).run S before
      (state.plan S draw).verdict = .ok () ∧
        LoadsBack S network (state.dir.after (state.plan S draw).effects) state.node.chain) ∧
      ∀ draw, Datadir.IsDraw draw →
        let state := (start P network dir).run S ops
        state.Recordable S →
          (((state.plan S draw).verdict = .ok () →
            LoadsBack S network (state.dir.after (state.plan S draw).effects) state.node.chain) ↔
              state.Continuing S) := by
  have along := (allowed_of_run fits overwrites validates draws).and continued
  have injective := collisionFree.hash_injOn
  constructor
  · intro before draw after shape state
    rw [shape] at along
    obtain ⟨earlier, ⟨allowed, recordable, continuing⟩, -⟩ := along.append
    rw [← shape] at earlier
    obtain ⟨sound, published⟩ := sound_published_of_along journal missing injective earlier
    obtain ⟨done, -, back⟩ := sound.loadsBack (allowed.isDraw draw rfl) recordable
      (published.continues continuing)
    exact ⟨done, back⟩
  · intro draw isDraw state recordable
    obtain ⟨sound, published⟩ := sound_published_of_along journal missing injective along
    constructor
    · intro back
      obtain ⟨full, restorable⟩ := sound.restorable
      exact published.continuing sound recordable
        (back (Datadir.save_done restorable recordable.storable))
    · intro continuing _
      exact (sound.loadsBack isDraw recordable (published.continues continuing)).2.2

/-! ## Runs with failed saves -/

/-- A failed save leaves what an interruption may leave, and the files that a later save
continues are not touched by one that failed. -/
def SavesResume (S : Serde) (state : StoredNode P) : ProcessOp → Prop
  | .work _ => True
  | .save draw => (state.plan S draw).verdict = .ok () →
      state.Recordable S ∧ state.dir.Continues S state.node.chain
  | .failedSave draw left => Interrupted state.dir (state.plan S draw).effects left

/-- In every run, whatever its failed saves leave, every save that gets to its end loads back
if it writes the block file anew or finds in it exactly the bodies that the metadata count. -/
theorem saves_after_failures {dir : Datadir} (journal : dir .recoveryJournal = none)
    (collisionFree : CollisionFree P (ProcessOp.works ops))
    (fits : FitsAlong (P := P) network (ProcessOp.works ops))
    (overwrites : OverwritesNothingAlong P network (ProcessOp.works ops))
    (validates : ∀ op ∈ ProcessOp.works ops, op.Validates = true)
    (draws : ∀ draw, .save draw ∈ ops → Datadir.IsDraw draw)
    (resumed : GuardedRun.Along (step S) (SavesResume S) (start P network dir) ops) :
    ∀ before draw after, ops = before ++ .save draw :: after →
      let state := (start P network dir).run S before
      (state.plan S draw).verdict = .ok () →
        LoadsBack S network (state.dir.after (state.plan S draw).effects) state.node.chain := by
  rintro before draw after rfl state done
  have along := (allowed_of_run fits overwrites validates draws).and resumed
  have injective := collisionFree.hash_injOn
  obtain ⟨earlier, ⟨allowed, resumes⟩, -⟩ := along.append
  obtain ⟨recordable, continues⟩ := resumes done
  have sound : state.Sound (offeredHeaders
      (ProcessOp.works (before ++ .save draw :: after))) network := by
    refine earlier.invariant (sound_start journal) ?_
    rintro state op sound ⟨allowed, resumed⟩
    cases op with
    | work op => exact sound.work injective (allowed.admissible op rfl) (allowed.validates op rfl)
    | save draw => exact sound.save
    | failedSave draw left => exact sound.failedSave resumed
  exact (sound.loadsBack (allowed.isDraw draw rfl) recordable continues).2.2

/-! ## Samples -/

section Sample

open Datadir Sample

theorem node_run (state : StoredNode P) (ops : List ProcessOp) :
    (state.run S ops).node = state.node.run (ProcessOp.works ops) := by
  induction ops generalizing state with
  | nil => rfl
  | cons op rest ih =>
      have later := ih (state.step S op)
      cases op with
      | work op => exact later
      | save draw => exact later
      | failedSave draw left => exact later

@[simp] theorem start_node (network : NetworkId) (dir : Datadir) :
    (start P network dir).node = Node.start P network := rfl

@[simp] theorem start_dir (network : NetworkId) (dir : Datadir) :
    (start P network dir).dir = dir := rfl

theorem plan_failedSave (left : Datadir) (other : Bytes) :
    (state.step S (.failedSave draw left)).plan S other = left.save S other state.node.chain := rfl

theorem dir_failedSave (left : Datadir) :
    (state.step S (.failedSave draw left)).dir = left := rfl

theorem node_failedSave (left : Datadir) :
    (state.step S (.failedSave draw left)).node = state.node := rfl

/-- A save may stop between a plan and the metadata. -/
theorem interrupted_thenMeta_stopped {dir : Datadir} {chain : Chain P} (plan : SavePlan) :
    Interrupted dir (dir.thenMeta S draw chain plan).effects (dir.after plan.effects) := by
  rw [Datadir.thenMeta, SavePlan.andThen]
  split
  · exact (Interrupted.whole _ _).append_left
  · exact Interrupted.whole _ _

theorem dir_run_saved (first second : Op) :
    (state.run S [.work first, .save draw, .work second]).dir =
      state.dir.after (state.dir.save S draw (state.node.step first).chain).effects := rfl

/-- A directory without files. -/
def fresh : Datadir :=
  fun _ => none

/-- The second block with another range proof. -/
def reproved1 : Block :=
  { block1 with
    body := { block1.body with
      outputs := block1.body.outputs.map fun output => { output with rangeProof := [1] } } }

/-- Three blocks, of which the first is dropped. -/
def keptOps : List Op :=
  [.applyBlock block0 now, .applyBlock block1 now, .applyBlock block2 now, .pruneKeep 2]

def keptChain : Chain primitives :=
  ((Node.start primitives .devnet).run keptOps).chain

/-- The pruned chain is saved, and then replaced by a heavier one whose first body is another
one under the same header. -/
def reprovedOps : List Op :=
  keptOps ++ [.maybeReorgTo [reproved1, block2, block3] now]

def reprovedChain : Chain primitives :=
  ((Node.start primitives .devnet).run reprovedOps).chain

def keptSave : List ProcessOp :=
  keptOps.map .work ++ [.save installation]

def reprovedSave : List ProcessOp :=
  keptSave ++ [.work (.maybeReorgTo [reproved1, block2, block3] now)]

theorem kept_facts : keptChain.blocks = [block1, block2] ∧ keptChain.firstHeight = 1 ∧
    keptChain.blockCount = 3 := by
  decide +kernel

theorem reproved_facts : reprovedChain.blocks = [reproved1, block2, block3] ∧
    reprovedChain.firstHeight = 1 ∧ reprovedChain.blockCount = 4 ∧
    reprovedChain.hashAt 2 = some keptChain.tipHash ∧ reproved1 ≠ block1 := by
  decide +kernel

theorem kept_ops : CollisionFree primitives (ProcessOp.works keptSave) ∧
    FitsAlong (P := primitives) .devnet (ProcessOp.works keptSave) ∧
    OverwritesNothingAlong primitives .devnet (ProcessOp.works keptSave) ∧
    ∀ op ∈ ProcessOp.works keptSave, op.Validates = true := by
  decide +kernel

theorem reproved_ops : CollisionFree primitives (ProcessOp.works reprovedSave) ∧
    FitsAlong (P := primitives) .devnet (ProcessOp.works reprovedSave) ∧
    OverwritesNothingAlong primitives .devnet (ProcessOp.works reprovedSave) ∧
    ∀ op ∈ ProcessOp.works reprovedSave, op.Validates = true := by
  decide +kernel

theorem reproved_small : reproved1.header.version = protocolVersion ∧
    (serde.binaryRecord reproved1).length ≤ 2000 := by
  have plain : reproved1.body.hasAnyBinding = false := by decide +kernel
  rw [Serde.binaryRecord, if_neg (by simp [plain])]
  decide +kernel

theorem storable_reproved (format : Format) {block : Block}
    (member : block ∈ [reproved1, block2, block3]) : serde.Storable format block := by
  rcases List.mem_cons.mp member with rfl | other
  · exact ⟨reproved_small.1, fun _ => reproved_small.2.trans (by decide)⟩
  · exact storable format (by simp_all)

theorem recordable_kept {state : StoredNode primitives} (same : state.node.chain = keptChain) :
    state.Recordable serde := by
  have inside : state.node.chain.blocks ⊆ [block0, block1, altered1, block2, block3] := by
    simp [same, kept_facts.1]
  exact ⟨fun block member => storable _ (inside member), legible _ inside⟩

theorem recordable_reproved {state : StoredNode primitives}
    (same : state.node.chain = reprovedChain) : state.Recordable serde := by
  have blocks : state.node.chain.blocks = [reproved1, block2, block3] := by
    rw [same, reproved_facts.1]
  refine ⟨fun block member => storable_reproved _ (blocks ▸ member), ?_⟩
  rw [blocks]
  refine Serde.legible_of_short fun block member => ?_
  rcases List.mem_cons.mp member with rfl | other
  · exact reproved_small.2.trans_lt (by decide)
  · exact (length_binaryRecord_le (by simp_all)).trans_lt (by decide)

/-- Work alone meets a condition on saves. -/
theorem along_work {cond : StoredNode P → ProcessOp → Prop}
    (easy : ∀ state work, cond state (.work work)) (works : List Op) (state : StoredNode P) :
    GuardedRun.Along (step S) cond state (works.map .work) := by
  induction works generalizing state with
  | nil => trivial
  | cons work rest ih => exact ⟨easy state work, ih _⟩

theorem along_reprovedSave : GuardedRun.Along (step serde) (SavesContinue serde)
    (start primitives .devnet fresh) reprovedSave := by
  have chain : ((start primitives .devnet fresh).run serde (keptOps.map .work)).node.chain =
      keptChain := by
    rw [node_run]
    rfl
  have works := @along_work primitives serde (SavesContinue serde) (fun _ _ => trivial) keptOps
    (start primitives .devnet fresh)
  have saves : SavesContinue serde
      ((start primitives .devnet fresh).run serde (keptOps.map .work)) (.save installation) :=
    ⟨recordable_kept chain, .inr fun saved none => by cases none⟩
  have saved : GuardedRun.Along (step serde) (SavesContinue serde) (start primitives .devnet fresh)
      keptSave := works.concat saves
  exact saved.concat trivial

/-- A completed save is remembered while the process works on. -/
theorem saved_then_work (done : (state.plan S draw).verdict = .ok ()) (op : Op) :
    (state.run S [.save draw, .work op]).saved = some state.node.chain := by
  simp only [run, GuardedRun.run_cons, GuardedRun.run_nil, step, done, if_true]

/-- The save of the pruned chain loads back. -/
theorem saves_load_back_kept :
    LoadsBack serde .devnet
      (((start primitives .devnet fresh).run serde (keptOps.map .work)).dir.after
        (((start primitives .devnet fresh).run serde (keptOps.map .work)).plan serde
          installation).effects)
      ((start primitives .devnet fresh).run serde (keptOps.map .work)).node.chain := by
  obtain ⟨collisionFree, fits, overwrites, validates⟩ := kept_ops
  have draws (draw : Bytes) (member : .save draw ∈ keptSave) : Datadir.IsDraw draw := by
    obtain rfl : draw = installation := by simpa [keptSave] using member
    exact installation_isDraw
  have journal : fresh .recoveryJournal = none := rfl
  have missing : fresh fresh.blocksPath = none := rfl
  exact ((saves_load_back_iff journal missing collisionFree fits overwrites validates draws
    along_reprovedSave.append.1).1 (keptOps.map .work) installation [] rfl).2

/-- The save after the reorg appends to the bodies of the chain before it. -/
theorem not_loadsBack_reproved {state : StoredNode primitives} (sound : state.Sound known .devnet)
    (published : state.Published serde) (chain : state.node.chain = reprovedChain)
    (saved : state.saved = some keptChain) :
    (state.plan serde installation).verdict = .ok () ∧
      ¬LoadsBack serde .devnet (state.dir.after (state.plan serde installation).effects)
        state.node.chain := by
  have recordable := recordable_reproved chain
  obtain ⟨full, restorable⟩ := sound.restorable
  refine ⟨Datadir.save_done restorable recordable.storable, fun back => ?_⟩
  obtain ⟨id, -, committed, -⟩ := published.saved keptChain saved
  obtain ⟨blocks, first, count, ancestor, differs⟩ := reproved_facts
  rcases published.continuing sound recordable back with anew | continued
  · simp [Datadir.rewrites, Chain.isPruned, Datadir.savesBodiesAnew, committed.record,
      committed.bodies, Datadir.metaOf, chain, first, count, ancestor, kept_facts.2.1,
      kept_facts.2.2] at anew
  · have start := continued keptChain saved
    rw [chain, blocks, kept_facts.1, List.cons_prefix_cons] at start
    exact differs start.1.symm

/-- A reorg that brings another body under the header of the first kept block is saved by an
append behind the old body, and the files then hold another chain than the node. -/
theorem reproved_save_mixes :
    let state := (start primitives .devnet fresh).run serde reprovedSave
    (state.plan serde installation).verdict = .ok () ∧
      ¬LoadsBack serde .devnet (state.dir.after (state.plan serde installation).effects)
        state.node.chain := by
  intro state
  obtain ⟨collisionFree, fits, overwrites, validates⟩ := reproved_ops
  have draws (draw : Bytes) (member : .save draw ∈ reprovedSave) : Datadir.IsDraw draw := by
    obtain rfl : draw = installation := by simpa [reprovedSave, keptSave] using member
    exact installation_isDraw
  have allowed := @allowed_of_run primitives serde .devnet reprovedSave fresh fits overwrites
    validates draws
  have journal : fresh .recoveryJournal = none := rfl
  have missing : fresh fresh.blocksPath = none := rfl
  obtain ⟨sound, published⟩ := sound_published_of_along journal missing collisionFree.hash_injOn
    (allowed.and along_reprovedSave)
  have chain : ((start primitives .devnet fresh).run serde reprovedSave).node.chain =
      reprovedChain := by
    rw [node_run]
    rfl
  have split : reprovedSave = keptOps.map .work ++
      [.save installation, .work (.maybeReorgTo [reproved1, block2, block3] now)] := rfl
  have along := allowed.and along_reprovedSave
  rw [split] at along
  obtain ⟨earlier, -⟩ := along.append
  rw [← split] at earlier
  have before := (sound_published_of_along journal missing collisionFree.hash_injOn earlier).1
  have kept : ((start primitives .devnet fresh).run serde (keptOps.map .work)).node.chain =
      keptChain := by
    rw [node_run]
    rfl
  obtain ⟨full, restorable⟩ := before.restorable
  have saved : ((start primitives .devnet fresh).run serde reprovedSave).saved =
      some keptChain := by
    rw [split, run, GuardedRun.run_append, ← kept]
    exact saved_then_work (Datadir.save_done restorable (recordable_kept kept).storable) _
  exact not_loadsBack_reproved sound published chain saved

/-- Two blocks, and a save that fails before its first step. -/
def retried : List ProcessOp :=
  minedOps.map .work ++ [.failedSave installation fresh] ++ [.save installation]

theorem mined_facts : CollisionFree primitives (ProcessOp.works retried) ∧
    FitsAlong (P := primitives) .devnet (ProcessOp.works retried) ∧
    OverwritesNothingAlong primitives .devnet (ProcessOp.works retried) ∧
    ∀ op ∈ ProcessOp.works retried, op.Validates = true := by
  decide +kernel

theorem recordable_chain2 {state : StoredNode primitives} (same : state.node.chain = chain2) :
    state.Recordable serde := by
  have inside : state.node.chain.blocks ⊆ [block0, block1, altered1, block2, block3] := by
    simp [same, sample_accepted.2.2.2]
  exact ⟨fun block member => storable _ (inside member), legible _ inside⟩

/-- What the failed save leaves of the process. -/
noncomputable def retriedState : StoredNode primitives :=
  (start primitives .devnet fresh).run serde
    (minedOps.map .work ++ [.failedSave installation fresh])

theorem retriedState_chain : retriedState.node.chain = chain2 := by
  have works : ProcessOp.works (minedOps.map .work ++ [.failedSave installation fresh]) =
    minedOps := rfl
  rw [retriedState, node_run, works]
  exact run_minedOps

theorem retriedState_dir : retriedState.dir = fresh := by
  rw [retriedState, run, GuardedRun.run_append]
  rfl

theorem along_retried : GuardedRun.Along (step serde) (SavesResume serde)
    (start primitives .devnet fresh) retried := by
  have anew : Datadir.rewrites serde fresh chain2 = true := by
    unfold Datadir.rewrites
    split_ifs <;> simp [Datadir.savesAnew, Datadir.savesBodiesAnew, fresh]
  have continues : retriedState.dir.Continues serde retriedState.node.chain := by
    intro kept
    rw [retriedState_chain, retriedState_dir] at kept
    exact absurd (anew.symm.trans kept) (by simp)
  have works := @along_work primitives serde (SavesResume serde) (fun _ _ => trivial) minedOps
    (start primitives .devnet fresh)
  have untouched : ((start primitives .devnet fresh).run serde (minedOps.map .work)).dir =
    fresh := rfl
  have fails : SavesResume serde
      ((start primitives .devnet fresh).run serde (minedOps.map .work))
      (.failedSave installation fresh) := by
    rw [SavesResume, untouched]
    exact .stop
  have resumes : SavesResume serde retriedState (.save installation) :=
    fun _ => ⟨recordable_chain2 retriedState_chain, continues⟩
  have failed : GuardedRun.Along (step serde) (SavesResume serde) (start primitives .devnet fresh)
      (minedOps.map .work ++ [.failedSave installation fresh]) := works.concat fails
  exact failed.concat resumes

/-- The next save makes up for it. -/
theorem saves_after_failures_once :
    LoadsBack serde .devnet
      (retriedState.dir.after (retriedState.plan serde installation).effects)
      retriedState.node.chain := by
  obtain ⟨collisionFree, fits, overwrites, validates⟩ := mined_facts
  have draws (draw : Bytes) (member : .save draw ∈ retried) : Datadir.IsDraw draw := by
    obtain rfl : draw = installation := by simpa [retried] using member
    exact installation_isDraw
  have journal : fresh .recoveryJournal = none := rfl
  obtain ⟨full, restorable⟩ := restorable_chain2
  have done : (retriedState.plan serde installation).verdict = .ok () :=
    Datadir.save_done (retriedState_chain.symm ▸ restorable)
      (recordable_chain2 retriedState_chain).storable
  have split : retried = minedOps.map .work ++ [.failedSave installation fresh] ++
      .save installation :: [] := rfl
  have back := saves_after_failures journal collisionFree fits overwrites validates draws
    along_retried _ installation [] split
  exact back done

/-- A save of two blocks over one of the first, stopped behind its append. -/
noncomputable def appendedDir : Datadir :=
  (savedDir chain1).after ((savedDir chain1).appendBlocks serde [block1]).effects

theorem committed_chain1 : Committed serde (savedDir chain1) installation chain1 :=
  committed_savedDir verified_chain1 (by simp [sample_accepted.2.1])

theorem storable_first (format : Format) {block : Block} (member : block ∈ [block0, block1]) :
    serde.Storable format block :=
  storable format (List.mem_append_left [altered1, block2, block3] member)

theorem savesAnew_chain1 : (savedDir chain1).savesAnew serde chain2 = false := by
  obtain ⟨-, first, -, second⟩ := sample_accepted
  refine (committed_chain1.savesAnew_eq_false headers_collisionFree verified_chain1
    verified_chain2 (sample_networks.2.trans sample_networks.1.symm) ?_ ?_).mpr ?_
  · simp [first]
  · simp [second]
  · simp [Chain.HeadersContinue, first, second]

theorem storedBlockCount_chain1 : (savedDir chain1).storedBlockCount serde = 1 := by
  rw [committed_chain1.storedBlockCount_eq, verified_chain1.blockCount, sample_accepted.2.1]
  rfl

theorem save_chain2 : (savedDir chain1).save serde installation chain2 =
    (savedDir chain1).thenMeta serde installation chain2
      ((savedDir chain1).appendBlocks serde [block1]) := by
  have second := sample_accepted.2.2.2
  rw [Datadir.save, if_neg (by simp [Chain.isPruned, verified_chain2.archive]),
    Datadir.saveArchive, savesAnew_chain1, if_neg (by simp), if_neg (by
      simp [storedBlockCount_chain1, verified_chain2.blockCount, second]),
    storedBlockCount_chain1, second]
  rfl

theorem sameBut_appendedDir : SameBut [.blocksBin, .blocksJsonl] (savedDir chain1) appendedDir := by
  rw [appendedDir, Datadir.appendBlocks_eq, Datadir.after_append]
  exact sameBut_withBlocks

theorem appendedDir_blocks : appendedDir appendedDir.blocksPath =
    some (serde.encode appendedDir.format [block0, block1]) := by
  rw [appendedDir, Datadir.appendBlocks_eq, Datadir.after_append, committed_chain1.bodies,
    Option.getD_some, sample_accepted.2.1, format_withBlocks, blocksPath_withBlocks,
    withBlocks_blocksPath]
  refine congrArg some (@Serde.encode_append serde _ [block0] _ fun block member => ?_).symm
  exact storable_first _ (List.mem_append_left [block1] member)

/-- The next save finds the metadata of the first one, and appends the second block again. -/
theorem not_loads_appendedDir {env : LoadEnv} {loaded : Chain primitives} {repaired : Datadir}
    (opened : (appendedDir.after (appendedDir.save serde installation chain2).effects).loadOrNew
      primitives serde env .devnet = (.ok loaded, repaired)) :
    loaded.withoutUndos ≠ chain2.withoutUndos := by
  intro unchanged
  have second := sample_accepted.2.2.2
  have same := sameBut_appendedDir
  obtain ⟨full, restorable⟩ := restorable_chain2
  have record : appendedDir.readMeta serde = (savedDir chain1).readMeta serde :=
    same.readMeta (by simp)
  have kept : appendedDir.savesAnew serde chain2 = false := by
    rw [savesAnew_congr record (by
      simp only [appendedDir_blocks, committed_chain1.bodies, Option.isNone_some]),
      savesAnew_chain1]
  have owner : appendedDir.storedId = some installation := by
    rw [same.storedId (by simp), committed_chain1.owner]
  have journal : appendedDir .recoveryJournal = none := by
    rw [same _ (by simp), committed_chain1.journal]
  have count : appendedDir.storedBlockCount serde = 1 := by
    rw [Datadir.storedBlockCount, record]
    exact storedBlockCount_chain1
  rw [← sample_networks.2] at opened
  have fits (block : Block) (member : block ∈ [block0, block1]) :
      serde.Storable appendedDir.format block := storable_first _ member
  have blocks := blocks_of_archive_kept owner journal appendedDir_blocks restorable
    verified_chain2.archive fits (by rwa [second]) kept opened
  have same : loaded.withoutUndos.blocks = chain2.withoutUndos.blocks := by rw [unchanged]
  simp only [Chain.withoutUndos] at same
  have lengths := congrArg List.length (blocks.symm.trans same)
  rw [count, second] at lengths
  simp at lengths

/-- The first block is saved, and the second one is mined. -/
noncomputable def minedState : StoredNode primitives :=
  (start primitives .devnet fresh).run serde
    [.work (.applyBlock block0 now), .save installation, .work (.applyBlock block1 now)]

theorem minedState_eq : minedState.dir = savedDir chain1 ∧ minedState.node.chain = chain2 := by
  have first : ((Node.start primitives .devnet).step (.applyBlock block0 now)).chain = chain1 := by
    rw [step_applyBlock]
    simp only [Node.start, chain1, grow, block0]
  rw [minedState]
  constructor
  · rw [dir_run_saved, start_dir, start_node, first]
    rfl
  · rw [node_run]
    exact run_minedOps

/-- A save fails behind its append.  The next one completes, and its files do not load. -/
theorem appended_twice :
    Interrupted minedState.dir (minedState.plan serde installation).effects appendedDir ∧
    ((minedState.step serde (.failedSave installation appendedDir)).plan serde
      installation).verdict = .ok () ∧
    ¬LoadsBack serde .devnet
      ((minedState.step serde (.failedSave installation appendedDir)).dir.after
        ((minedState.step serde (.failedSave installation appendedDir)).plan serde
          installation).effects)
      (minedState.step serde (.failedSave installation appendedDir)).node.chain := by
  obtain ⟨dir, chain⟩ := minedState_eq
  have second := sample_accepted.2.2.2
  refine ⟨?_, ?_, fun back => ?_⟩
  · rw [plan, dir, chain, save_chain2, appendedDir]
    exact interrupted_thenMeta_stopped _
  · obtain ⟨full, restorable⟩ := restorable_chain2
    rw [plan_failedSave]
    refine @Datadir.save_done _ _ _ _ _ full ?_ ?_
    · rw [chain]
      exact restorable
    · rw [chain, second]
      exact fun block member => storable_first _ member
  · obtain ⟨loaded, repaired, opened, unchanged⟩ := back ⟨0, 0, []⟩
    rw [plan_failedSave, dir_failedSave, chain] at opened
    rw [node_failedSave, chain] at unchanged
    exact not_loads_appendedDir opened unchanged

end Sample

end StoredNode

end Nightfall
