import Nightfall.Storage.Committed

/-!
# What a save leaves behind

Each part of a save changes its own files only.  A save that gets to its end commits the
directory to the chain, provided that it rewrites the block file or finds in it exactly
the blocks that it counts as stored.
-/

namespace Nightfall

open Files

variable {P : Primitives}

theorem Chain.Restorable.length_blocks {chain : Chain P} {full : List Block}
    (restorable : chain.Restorable full) :
    chain.blocks.length = chain.blockCount - chain.firstHeight := by
  have describes := restorable.holds.follows.describes
  unfold Chain.blockCount
  split_ifs
  · rw [describes.blocks, describes.headers, List.length_drop, List.length_map]
  · exact (Nat.add_sub_cancel_left _ _).symm

namespace Datadir

variable {S : Serde} {dir left : Datadir} {id draw content : Bytes} {chain : Chain P}
  {name : FileName}

/-! ## Frames -/

/-- The files outside the list are the same. -/
def SameBut (names : List FileName) (dir left : Datadir) : Prop :=
  ∀ name, name ∉ names → left name = dir name

theorem SameBut.trans {first second : List FileName} {last : Datadir}
    (front : SameBut first dir left) (back : SameBut second left last) :
    SameBut (first ++ second) dir last := by
  intro name outside
  rw [List.mem_append, not_or] at outside
  exact (back name outside.2).trans (front name outside.1)

theorem SameBut.mono {names more : List FileName} (same : SameBut names dir left)
    (inside : names ⊆ more) : SameBut more dir left :=
  fun name outside => same name fun member => outside (inside member)

/-- Effects that name only the files of a list. -/
theorem sameBut_after {names : List FileName} {effects : List (Effect FileName)}
    (inside : ∀ effect ∈ effects, ∀ name ∈ effect.names, name ∈ names) :
    SameBut names dir (dir.after effects) :=
  fun name outside => run_of_notMem fun effect member named =>
    outside (inside effect member name named)

theorem sameBut_interrupted {names : List FileName} {effects : List (Effect FileName)}
    (inside : ∀ effect ∈ effects, ∀ name ∈ effect.names, name ∈ names)
    (interrupted : Interrupted dir effects left) : SameBut names dir left :=
  fun name outside => interrupted.of_notMem fun effect member named =>
    outside (inside effect member name named)

theorem names_replace {temporary : FileName} :
    ∀ effect ∈ replace temporary name content, ∀ other ∈ effect.names,
      other ∈ [temporary, name] := by
  intro effect member other named
  simp only [replace, List.mem_cons, List.not_mem_nil, or_false] at member
  rcases member with rfl | rfl
  · simp_all [Effect.names]
  · simp_all [Effect.names]

theorem SameBut.readMeta {names : List FileName} (same : SameBut names dir left)
    (outside : .chainMeta ∉ names) : left.readMeta S = dir.readMeta S :=
  readMeta_congr (same _ outside)

theorem SameBut.storedId {names : List FileName} (same : SameBut names dir left)
    (outside : .installId ∉ names) : left.storedId = dir.storedId := by
  rw [Datadir.storedId, Datadir.storedId, same _ outside]

theorem SameBut.sizeOf {names : List FileName} (same : SameBut names dir left)
    (outside : name ∉ names) : left.sizeOf name = dir.sizeOf name := by
  rw [Datadir.sizeOf, Datadir.sizeOf, same _ outside]

theorem SameBut.format {names : List FileName} (same : SameBut names dir left)
    (binary : .blocksBin ∉ names) (json : .blocksJsonl ∉ names) : left.format = dir.format :=
  format_congr (same _ binary) (same _ json)

theorem SameBut.blocks {names : List FileName} (same : SameBut names dir left)
    (binary : .blocksBin ∉ names) (json : .blocksJsonl ∉ names) :
    left left.blocksPath = dir dir.blocksPath := by
  rw [Datadir.blocksPath, same.format binary json]
  unfold Datadir.blocksPath Format.fileName
  split
  · exact same _ json
  · exact same _ binary

theorem SameBut.metaOf {names : List FileName} (same : SameBut names dir left)
    (binary : .blocksBin ∉ names) (json : .blocksJsonl ∉ names) (headers : .headers ∉ names)
    (horizon : .horizon ∉ names) : left.metaOf id chain = dir.metaOf id chain := by
  have blocks : left.sizeOf left.blocksPath = dir.sizeOf dir.blocksPath := by
    unfold Datadir.sizeOf
    rw [same.blocks binary json]
  simp only [Datadir.metaOf, blocks, same.sizeOf headers, same.sizeOf horizon]

/-- A chain is committed as long as its files and the metadata are the same. -/
theorem Committed.of_sameBut {names : List FileName} (committed : Committed S dir id chain)
    (same : SameBut names dir left)
    (outside : ∀ name ∈ [FileName.blocksBin, .blocksJsonl, .chainMeta, .installId,
      .recoveryJournal, .headers, .horizon], name ∉ names) : Committed S left id chain := by
  simp only [List.mem_cons, List.not_mem_nil, or_false, forall_eq_or_imp, forall_eq] at outside
  obtain ⟨binary, json, record, owner, journal, headers, horizon⟩ := outside
  have format := same.format binary json
  have sizes : left.metaOf id chain = dir.metaOf id chain := same.metaOf binary json headers horizon
  refine ⟨?_, ?_, ?_, ?_, ?_, ?_⟩
  · rw [same.blocks binary json, committed.bodies, format]
  · rw [same.readMeta record, sizes, committed.record]
  · rw [same.storedId owner, committed.owner]
  · rw [same _ journal, committed.journal]
  · intro pruned
    rw [same _ headers, committed.headers pruned]
  · intro pruned horizon' present
    rw [same _ horizon, committed.horizon pruned horizon' present]

theorem after_concat (dir : Datadir) (front back : List (Effect FileName)) :
    dir.after (front ++ back) = (dir.after front).after back :=
  run_append front back

/-! ## The block file -/

theorem temporary_ne_blocksPath : FileName.temporary name ≠ dir.blocksPath :=
  (blocksPath_ne (by simp) (by simp)).symm

/-- The directory with another block file. -/
def withBlocks (dir : Datadir) (content : Bytes) : Datadir :=
  put dir dir.blocksPath content

@[simp] theorem format_withBlocks : (dir.withBlocks content).format = dir.format :=
  format_put_blocksPath content

@[simp] theorem blocksPath_withBlocks : (dir.withBlocks content).blocksPath = dir.blocksPath := by
  rw [blocksPath, format_withBlocks, blocksPath]

@[simp] theorem withBlocks_blocksPath :
    dir.withBlocks content dir.blocksPath = some content :=
  put_self

theorem sameBut_withBlocks : SameBut [.blocksBin, .blocksJsonl] dir (dir.withBlocks content) := by
  intro name outside
  simp only [List.mem_cons, List.not_mem_nil, or_false, not_or] at outside
  exact put_of_ne (blocksPath_ne outside.1 outside.2).symm

theorem after_append : dir.after [.append dir.blocksPath content] =
    dir.withBlocks ((dir dir.blocksPath).getD [] ++ content) :=
  rfl

/-- The block file after it was replaced. -/
theorem after_replace_blocks : SameBut [.temporary dir.blocksPath] (dir.withBlocks content)
    (dir.after (replace (.temporary dir.blocksPath) dir.blocksPath content)) := by
  intro name outside
  rw [List.mem_singleton] at outside
  rw [after, run_replace temporary_ne_blocksPath.symm, Function.update_of_ne outside]
  rfl

theorem rewriteBodies_of_written (written : (S.writeBlocks dir.format chain.blocks).2 = true) :
    dir.rewriteBodies S chain =
      ⟨replace (.temporary dir.blocksPath) dir.blocksPath (S.encode dir.format chain.blocks),
        .ok ()⟩ := by
  simp [rewriteBodies, written, Serde.encode]

theorem appendBlocks_eq (blocks : List Block) :
    dir.appendBlocks S blocks =
      ⟨[.append dir.blocksPath (S.encode dir.format blocks)],
        if (S.writeBlocks dir.format blocks).2 then .ok () else .error .recordTooLarge⟩ :=
  rfl

/-! ## The metadata -/

theorem names_writeMeta : ∀ effect ∈ (dir.writeMeta S draw chain).effects,
    ∀ name ∈ effect.names, name ∈ [FileName.installId, .temporary .chainMeta, .chainMeta] := by
  intro effect member name named
  simp only [writeMeta, List.mem_append] at member
  rcases member with ids | written
  · unfold installId at ids
    cases held : dir.storedId with
    | some id => simp [held] at ids
    | none =>
        rw [held] at ids
        simp only [List.mem_singleton] at ids
        simp_all [Effect.names]
  · have := names_replace effect written name named
    simp_all

/-- The metadata that a save publishes describes the files beside it. -/
theorem committed_writeMeta (isDraw : IsDraw draw)
    (bodies : dir dir.blocksPath = some (S.encode dir.format chain.blocks))
    (journal : dir .recoveryJournal = none)
    (headers : 0 < chain.firstHeight → dir .headers = some (headersText S chain.headers))
    (horizon : 0 < chain.firstHeight → ∀ horizon, chain.horizon = some horizon →
      dir .horizon = some (S.horizonJson (horizonToFile horizon))) :
    Committed S (dir.after (dir.writeMeta S draw chain).effects) (dir.installId draw).1 chain := by
  have same : SameBut [.installId, .temporary .chainMeta, .chainMeta] dir
      (dir.after (dir.writeMeta S draw chain).effects) := sameBut_after names_writeMeta
  have path := same.blocks (by simp) (by simp)
  have format := same.format (by simp) (by simp)
  have shape : dir.after (dir.writeMeta S draw chain).effects =
      (dir.after (dir.installId draw).2).after (replace (.temporary .chainMeta) .chainMeta
        (S.metaJson (dir.metaOf (dir.installId draw).1 chain))) :=
    after_concat _ _ _
  have sizes : (dir.after (dir.writeMeta S draw chain).effects).metaOf (dir.installId draw).1 chain =
      dir.metaOf (dir.installId draw).1 chain :=
    same.metaOf (by simp) (by simp) (by simp) (by simp)
  refine ⟨?_, ?_, ?_, ?_, ?_, ?_⟩
  · rw [path, bodies, format]
  · rw [sizes, readMeta, shape, after, run_replace_self (by simp)]
    exact S.metaOfJson_metaJson _
  · have last : SameBut [.temporary .chainMeta, .chainMeta] (dir.after (dir.installId draw).2)
        (dir.after (dir.writeMeta S draw chain).effects) := by
      rw [shape]
      exact sameBut_after names_replace
    rw [last.storedId (by simp), storedId_after_installId isDraw]
  · rw [same _ (by simp), journal]
  · intro pruned
    rw [same _ (by simp), headers pruned]
  · intro pruned horizon' present
    rw [same _ (by simp), horizon pruned horizon' present]

/-! ## Completed saves -/

/-- A save writes the block file anew. -/
def rewrites (S : Serde) (dir : Datadir) (chain : Chain P) : Bool :=
  if chain.isPruned then dir.savesBodiesAnew S chain else dir.savesAnew S chain

/-- A save that does not rewrite the block file finds in it exactly the blocks of the chain
that the metadata counts as stored. -/
def Continues (S : Serde) (dir : Datadir) (chain : Chain P) : Prop :=
  dir.rewrites S chain = false → dir dir.blocksPath =
    some (S.encode dir.format (chain.blocks.take (dir.storedBlockCount S - chain.firstHeight)))

/-- The block file holds the bodies of the chain, and the other files are the same. -/
structure BodiesWritten (S : Serde) (dir left : Datadir) (chain : Chain P) : Prop where
  bodies : left left.blocksPath = some (S.encode left.format chain.blocks)
  same : SameBut [.blocksBin, .blocksJsonl, .temporary .blocksBin, .temporary .blocksJsonl]
    dir left

theorem temporary_blocksPath_mem : FileName.temporary dir.blocksPath ∈
    [FileName.blocksBin, .blocksJsonl, .temporary .blocksBin, .temporary .blocksJsonl] := by
  unfold blocksPath Format.fileName
  split <;> simp

theorem rewriteBodies_writes (written : (S.writeBlocks dir.format chain.blocks).2 = true) :
    (dir.rewriteBodies S chain).verdict = .ok () ∧
      BodiesWritten S dir (dir.after (dir.rewriteBodies S chain).effects) chain := by
  rw [rewriteBodies_of_written written]
  have replaced := @after_replace_blocks dir (S.encode dir.format chain.blocks)
  have outside {name : FileName} (plain : name ∈ [FileName.blocksBin, .blocksJsonl]) :
      name ∉ [FileName.temporary dir.blocksPath] := by
    rintro member
    obtain rfl := List.mem_singleton.mp member
    simp at plain
  have path := replaced.blocks (outside (by simp)) (outside (by simp))
  have format := replaced.format (outside (by simp)) (outside (by simp))
  refine ⟨rfl, ?_, ?_⟩
  · rw [path, format, blocksPath_withBlocks, withBlocks_blocksPath, format_withBlocks]
  · refine (sameBut_withBlocks.trans replaced).mono ?_
    intro name member
    rcases List.mem_append.mp member with plain | temporary
    · simp only [List.mem_cons, List.not_mem_nil, or_false] at plain ⊢
      tauto
    · obtain rfl := List.mem_singleton.mp temporary
      exact temporary_blocksPath_mem

theorem appendBlocks_writes {stored : Nat}
    (held : dir dir.blocksPath = some (S.encode dir.format (chain.blocks.take stored)))
    (storable : ∀ block ∈ chain.blocks, S.Storable dir.format block) :
    (dir.appendBlocks S (chain.blocks.drop stored)).verdict = .ok () ∧
      BodiesWritten S dir (dir.after (dir.appendBlocks S (chain.blocks.drop stored)).effects)
        chain := by
  have storedOnes : ∀ block ∈ chain.blocks.take stored, S.Storable dir.format block :=
    fun block member => storable block (List.mem_of_mem_take member)
  have newOnes : ∀ block ∈ chain.blocks.drop stored, S.Storable dir.format block :=
    fun block member => storable block (List.mem_of_mem_drop member)
  have whole : S.encode dir.format (chain.blocks.take stored) ++
      S.encode dir.format (chain.blocks.drop stored) = S.encode dir.format chain.blocks := by
    rw [← Serde.encode_append storedOnes, List.take_append_drop]
  rw [appendBlocks_eq, if_pos (Serde.writeBlocks_of_storable newOnes), after_append, held,
    Option.getD_some, whole]
  refine ⟨rfl, ?_, ?_⟩
  · rw [blocksPath_withBlocks, withBlocks_blocksPath, format_withBlocks]
  · exact sameBut_withBlocks.mono (by simp)

theorem after_thenMeta {plan : SavePlan} (done : plan.verdict = .ok ()) :
    (dir.thenMeta S draw chain plan).verdict = .ok () ∧
      dir.after (dir.thenMeta S draw chain plan).effects =
        (dir.after plan.effects).after
          ((dir.after plan.effects).writeMeta S draw chain).effects := by
  rw [thenMeta, SavePlan.andThen, done]
  exact ⟨rfl, after_concat _ _ _⟩

theorem SameBut.installId {names : List FileName} (same : SameBut names dir left)
    (outside : .installId ∉ names) : left.installId draw = dir.installId draw := by
  rw [Datadir.installId, Datadir.installId, same.storedId outside]

variable {full : List Block}

/-- A completed save of an archive. -/
theorem saveArchive_commits (isDraw : IsDraw draw) (journal : dir .recoveryJournal = none)
    (restorable : chain.Restorable full) (archive : chain.firstHeight = 0)
    (storable : ∀ block ∈ chain.blocks, S.Storable dir.format block)
    (continues : dir.Continues S chain) :
    (dir.saveArchive S draw chain).verdict = .ok () ∧
      Committed S (dir.after (dir.saveArchive S draw chain).effects) (dir.installId draw).1
        chain := by
  have plain : chain.isPruned = false := by simp [Chain.isPruned, archive]
  have noSides {what : Prop} (pruned : 0 < chain.firstHeight) : what := by omega
  have finish {plan : SavePlan} (done : plan.verdict = .ok ())
      (written : BodiesWritten S dir (dir.after plan.effects) chain) :
      (dir.thenMeta S draw chain plan).verdict = .ok () ∧
        Committed S (dir.after (dir.thenMeta S draw chain plan).effects) (dir.installId draw).1
          chain := by
    obtain ⟨verdict, after⟩ := @after_thenMeta P S dir draw chain plan done
    refine ⟨verdict, ?_⟩
    rw [after, ← written.same.installId (by simp)]
    refine committed_writeMeta isDraw written.bodies ?_ noSides noSides
    rw [written.same _ (by simp), journal]
  unfold saveArchive
  split_ifs with anew equal
  · obtain ⟨done, written⟩ := rewriteBodies_writes (Serde.writeBlocks_of_storable storable)
    exact finish done written
  · have held := continues (by simp [rewrites, plain, anew])
    rw [equal, archive, Nat.sub_zero, List.take_of_length_le
      (by rw [restorable.length_blocks, archive, Nat.sub_zero])] at held
    exact ⟨rfl, committed_writeMeta isDraw held journal noSides noSides⟩
  · have held := continues (by simp [rewrites, plain, anew])
    rw [archive, Nat.sub_zero] at held
    obtain ⟨done, written⟩ := appendBlocks_writes held storable
    exact finish done written

/-! ### Pruned chains -/

theorem SavePlan.andThen_of_ok {plan next : SavePlan} (done : plan.verdict = .ok ()) :
    plan.andThen next = ⟨plan.effects ++ next.effects, next.verdict⟩ := by
  rw [SavePlan.andThen, done]

/-- The side files of a pruned save. -/
theorem sideFiles_written {horizon : LedgerState P} (present : chain.horizon = some horizon) :
    (writeHeaders S chain).andThen (writeHorizon S chain) =
      ⟨replace (.temporary .headers) .headers (headersText S chain.headers) ++
        replace (.temporary .horizon) .horizon (S.horizonJson (horizonToFile horizon)), .ok ()⟩ := by
  rw [SavePlan.andThen_of_ok rfl, writeHorizon, present]
  rfl

theorem names_sideFiles {headers horizon : Bytes} :
    ∀ effect ∈ replace (.temporary .headers) .headers headers ++
      replace (.temporary .horizon) .horizon horizon, ∀ name ∈ effect.names,
      name ∈ [FileName.temporary .headers, .headers, .temporary .horizon, .horizon] := by
  intro effect member name named
  rcases List.mem_append.mp member with first | second
  · have touched := names_replace effect first name named
    simp only [List.mem_cons, List.not_mem_nil, or_false] at touched ⊢
    tauto
  · have touched := names_replace effect second name named
    simp only [List.mem_cons, List.not_mem_nil, or_false] at touched ⊢
    tauto

theorem after_sideFiles (dir : Datadir) (headers horizon : Bytes) :
    dir.after (replace (.temporary .headers) .headers headers ++
        replace (.temporary .horizon) .horizon horizon) .headers = some headers ∧
      dir.after (replace (.temporary .headers) .headers headers ++
        replace (.temporary .horizon) .horizon horizon) .horizon = some horizon := by
  rw [after_concat]
  unfold after
  constructor
  · rw [run_of_notMem fun effect member named => by
      have := names_replace effect member _ named
      simp at this]
    exact run_replace_self (show FileName.headers ≠ .temporary .headers by simp) _
  · exact run_replace_self (show FileName.horizon ≠ .temporary .horizon by simp) _

theorem rewriteBodies_congr (same : left.format = dir.format) :
    left.rewriteBodies S chain = dir.rewriteBodies S chain := by
  simp only [rewriteBodies, blocksPath, same]

theorem appendBlocks_congr (same : left.format = dir.format) {blocks : List Block} :
    left.appendBlocks S blocks = dir.appendBlocks S blocks := by
  simp only [appendBlocks, blocksPath, same]

/-- The bodies of a pruned save, in a directory with new side files. -/
theorem saveBodies_writes (restorable : chain.Restorable full)
    (pruned : 0 < chain.firstHeight)
    (storable : ∀ block ∈ chain.blocks, S.Storable dir.format block)
    (continues : dir.Continues S chain)
    (same : SameBut [.temporary .headers, .headers, .temporary .horizon, .horizon] dir left) :
    (dir.saveBodies S chain).verdict = .ok () ∧
      BodiesWritten S left (left.after (dir.saveBodies S chain).effects) chain := by
  have format := same.format (by simp) (by simp)
  have blocks := same.blocks (by simp) (by simp)
  have isPruned : chain.isPruned = true := by simp [Chain.isPruned, pruned]
  rw [← format] at storable
  unfold saveBodies
  split_ifs with anew more
  · rw [← rewriteBodies_congr format]
    exact rewriteBodies_writes (Serde.writeBlocks_of_storable storable)
  · have held := continues (by simp [rewrites, isPruned, anew])
    rw [← blocks, ← format] at held
    rw [← appendBlocks_congr format]
    exact appendBlocks_writes held storable
  · have held := continues (by simp [rewrites, isPruned, anew])
    have notMore : dir.storedBlockCount S ≤ chain.blockCount := by
      by_contra longer
      refine anew ?_
      simp only [savesBodiesAnew, Bool.or_eq_true, decide_eq_true_eq]
      exact .inl (.inr (not_le.mp longer))
    have equal : dir.storedBlockCount S = chain.blockCount := le_antisymm notMore (not_lt.mp more)
    rw [equal, ← restorable.length_blocks, List.take_length, ← blocks, ← format] at held
    exact ⟨rfl, held, fun _ _ => rfl⟩

/-- A completed save of a pruned chain. -/
theorem savePruned_commits (isDraw : IsDraw draw) (journal : dir .recoveryJournal = none)
    (restorable : chain.Restorable full) (pruned : 0 < chain.firstHeight)
    (storable : ∀ block ∈ chain.blocks, S.Storable dir.format block)
    (continues : dir.Continues S chain) :
    (dir.savePruned S draw chain).verdict = .ok () ∧
      Committed S (dir.after (dir.savePruned S draw chain).effects) (dir.installId draw).1
        chain := by
  obtain ⟨horizon, present⟩ := Option.isSome_iff_exists.mp (restorable.base.pruned pruned)
  have sides := @sideFiles_written P S chain horizon present
  have same := @sameBut_after dir _ _ (@names_sideFiles (headersText S chain.headers)
    (S.horizonJson (horizonToFile horizon)))
  obtain ⟨headersHeld, horizonHeld⟩ := after_sideFiles dir (headersText S chain.headers)
    (S.horizonJson (horizonToFile horizon))
  obtain ⟨done, written⟩ := saveBodies_writes restorable pruned storable continues same
  have plan : dir.savePruned S draw chain = dir.thenMeta S draw chain
      ⟨(replace (.temporary .headers) .headers (headersText S chain.headers) ++
        replace (.temporary .horizon) .horizon (S.horizonJson (horizonToFile horizon))) ++
          (dir.saveBodies S chain).effects, .ok ()⟩ := by
    rw [savePruned, sides, SavePlan.andThen_of_ok rfl, done]
  obtain ⟨verdict, after⟩ := @after_thenMeta P S dir draw chain ⟨_, .ok ()⟩ rfl
  rw [plan]
  refine ⟨verdict, ?_⟩
  rw [after, after_concat, ← same.installId (by simp), ← written.same.installId (by simp)]
  refine committed_writeMeta isDraw written.bodies ?_ (fun _ => ?_) (fun _ other held => ?_)
  · rw [← journal, ← same .recoveryJournal (by simp)]
    exact written.same _ (by simp)
  · rw [← headersHeld]
    exact written.same _ (by simp)
  · obtain rfl := Option.some.inj (present.symm.trans held)
    rw [← horizonHeld]
    exact written.same _ (by simp)

/-- A save that gets to its end commits the directory to the chain. -/
theorem save_commits (isDraw : IsDraw draw) (journal : dir .recoveryJournal = none)
    (restorable : chain.Restorable full)
    (storable : ∀ block ∈ chain.blocks, S.Storable dir.format block)
    (continues : dir.Continues S chain) :
    (dir.save S draw chain).verdict = .ok () ∧
      Committed S (dir.after (dir.save S draw chain).effects) (dir.installId draw).1 chain := by
  unfold save
  split_ifs with isPruned
  · have pruned : 0 < chain.firstHeight := by simpa [Chain.isPruned] using isPruned
    exact savePruned_commits isDraw journal restorable pruned storable continues
  · have archive : chain.firstHeight = 0 := by simpa [Chain.isPruned] using isPruned
    exact saveArchive_commits isDraw journal restorable archive storable continues

/-! ## What a save may touch -/

/-- The files that only a write in progress uses. -/
def scratch : List FileName :=
  [.temporary .blocksBin, .temporary .blocksJsonl, .temporary .chainMeta, .temporary .headers,
    .temporary .horizon]

theorem temporary_blocksPath_scratch : .temporary dir.blocksPath ∈ scratch := by
  unfold blocksPath Format.fileName scratch
  split <;> simp

/-- The effect changes none but the listed files and the scratch files, and takes none but
scratch files away. -/
structure Careful (names : List FileName) (effect : Effect FileName) : Prop where
  names : ∀ name ∈ effect.names, name ∈ names ++ scratch
  drops : ∀ name ∈ effect.drops, name ∈ scratch

def CarefulPlan (names : List FileName) (plan : SavePlan) : Prop :=
  ∀ effect ∈ plan.effects, Careful names effect

theorem CarefulPlan.andThen {names : List FileName} {plan next : SavePlan}
    (first : CarefulPlan names plan) (second : CarefulPlan names next) :
    CarefulPlan names (plan.andThen next) := by
  unfold SavePlan.andThen CarefulPlan
  split
  · intro effect member
    rcases List.mem_append.mp member with here | there
    · exact first effect here
    · exact second effect there
  · exact first

theorem careful_replace {names : List FileName} (inside : name ∈ names)
    (temporary : .temporary name ∈ scratch) :
    ∀ effect ∈ replace (.temporary name) name content, Careful names effect := by
  intro effect member
  simp only [replace, List.mem_cons, List.not_mem_nil, or_false] at member
  rcases member with rfl | rfl
  · exact ⟨by simp [Effect.names, temporary], by simp [Effect.drops]⟩
  · exact ⟨by simp [Effect.names, temporary, inside], by simp [Effect.drops, temporary]⟩

/-- The files that a save may change. -/
def savedFiles (dir : Datadir) : List FileName :=
  [dir.blocksPath, .installId, .chainMeta, .headers, .horizon]

theorem careful_writeMeta : CarefulPlan dir.savedFiles (left.writeMeta S draw chain) := by
  intro effect member
  simp only [writeMeta, List.mem_append] at member
  rcases member with ids | written
  · unfold installId at ids
    cases held : left.storedId with
    | some id => simp [held] at ids
    | none =>
        rw [held] at ids
        simp only [List.mem_singleton] at ids
        rw [ids]
        exact ⟨by simp [Effect.names, savedFiles], by simp [Effect.drops]⟩
  · exact careful_replace (by simp [savedFiles]) (by simp [scratch]) effect written

theorem careful_rewriteBodies : CarefulPlan dir.savedFiles (dir.rewriteBodies S chain) := by
  have inside : dir.blocksPath ∈ dir.savedFiles := by simp [savedFiles]
  unfold rewriteBodies
  simp only
  split_ifs
  · exact careful_replace inside temporary_blocksPath_scratch
  · intro effect member
    obtain rfl := List.mem_singleton.mp member
    exact ⟨by simp [Effect.names, temporary_blocksPath_scratch], by simp [Effect.drops]⟩

theorem careful_appendBlocks {blocks : List Block} :
    CarefulPlan dir.savedFiles (dir.appendBlocks S blocks) := by
  intro effect member
  rw [appendBlocks_eq] at member
  obtain rfl := List.mem_singleton.mp member
  exact ⟨by simp [Effect.names, savedFiles], by simp [Effect.drops]⟩

theorem careful_thenMeta {plan : SavePlan} (careful : CarefulPlan dir.savedFiles plan) :
    CarefulPlan dir.savedFiles (dir.thenMeta S draw chain plan) :=
  careful.andThen careful_writeMeta

theorem careful_save : CarefulPlan dir.savedFiles (dir.save S draw chain) := by
  unfold save
  split_ifs
  · have headers : CarefulPlan dir.savedFiles (writeHeaders S chain) :=
      careful_replace (by simp [savedFiles]) (by simp [scratch])
    have horizon : CarefulPlan dir.savedFiles (writeHorizon S chain) := by
      unfold writeHorizon
      cases chain.horizon with
      | none => exact fun effect member => absurd member List.not_mem_nil
      | some horizon => exact careful_replace (by simp [savedFiles]) (by simp [scratch])
    refine careful_thenMeta ((headers.andThen horizon).andThen ?_)
    unfold saveBodies
    split_ifs
    · exact careful_rewriteBodies
    · exact careful_appendBlocks
    · exact fun effect member => absurd member List.not_mem_nil
  · unfold saveArchive
    split_ifs
    · exact careful_thenMeta careful_rewriteBodies
    · exact careful_writeMeta
    · exact careful_thenMeta careful_appendBlocks

theorem sameBut_interrupted_save
    (interrupted : Interrupted dir (dir.save S draw chain).effects left) :
    SameBut (dir.savedFiles ++ scratch) dir left :=
  sameBut_interrupted (fun effect member => (careful_save effect member).names) interrupted

/-- The block file that is not in use stays missing or hidden, so the format stays. -/
theorem format_interrupted_save
    (interrupted : Interrupted dir (dir.save S draw chain).effects left) :
    left.format = dir.format := by
  have same := sameBut_interrupted_save interrupted
  have kept {name : FileName} (plain : name ∉ scratch) (present : (dir name).isSome) :
      (left name).isSome :=
    interrupted.isSome (fun effect member dropped =>
      plain ((careful_save effect member).drops name dropped)) present
  have outside {name : FileName} (other : name ≠ dir.blocksPath)
      (plain : name ∈ [FileName.blocksBin, .blocksJsonl]) : left name = dir name := by
    apply same
    simp only [List.mem_cons, List.not_mem_nil, or_false] at plain
    rcases plain with rfl | rfl
    · simp [savedFiles, scratch, other]
    · simp [savedFiles, scratch, other]
  by_cases binary : (dir .blocksBin).isSome
  · rw [format, format, if_pos (kept (by simp [scratch]) binary), if_pos binary]
  · by_cases json : (dir .blocksJsonl).isSome
    · have path : dir.blocksPath = .blocksJsonl := by
        rw [blocksPath, format, if_neg binary, if_pos json]
        rfl
      rw [format, format, outside (by simp [path]) (by simp), if_neg binary,
        if_pos (kept (by simp [scratch]) json), if_neg binary, if_pos json]
    · have path : dir.blocksPath = .blocksBin := by
        rw [blocksPath, format, if_neg binary, if_neg json]
        rfl
      have none := @outside .blocksJsonl (by simp [path]) (by simp)
      rw [format, format, none, if_neg binary, if_neg json]
      split <;> rfl

theorem format_save : (dir.after (dir.save S draw chain).effects).format = dir.format :=
  format_interrupted_save (Interrupted.whole _ _)

end Datadir

end Nightfall
