import Nightfall.Storage.Archive

/-!
# Interrupted saves

What a save leaves behind that was interrupted at any point: apart from the files beside
which it writes, it has changed nothing, or the block file alone, or everything.
-/

namespace Nightfall

open Files

variable {P : Primitives}

namespace Datadir

variable {S : Serde} {dir left last : Datadir} {id draw content old : Bytes} {chain : Chain P}
  {name : FileName}

theorem SameBut.refl {names : List FileName} : SameBut names dir dir :=
  fun _ _ => rfl

theorem SameBut.join {names : List FileName} (front : SameBut names dir left)
    (back : SameBut names left last) : SameBut names dir last :=
  fun name outside => (back name outside).trans (front name outside)

theorem SameBut.symm {names : List FileName} (same : SameBut names dir left) :
    SameBut names left dir :=
  fun name outside => (same name outside).symm

/-- During a replacement the file holds the old content or the new one. -/
theorem interrupted_replace_cases (differs : name ≠ .temporary name)
    (interrupted : Interrupted dir (replace (.temporary name) name content) left) :
    SameBut [.temporary name] dir left ∨ SameBut [.temporary name] (put dir name content) left := by
  obtain ⟨here, others⟩ := interrupted_replace differs interrupted
  rcases here with same | replaced
  · refine .inl fun other outside => ?_
    by_cases isName : other = name
    · rw [isName, same]
    · exact others other isName (by simpa using outside)
  · refine .inr fun other outside => ?_
    by_cases isName : other = name
    · rw [isName, replaced, put_self]
    · rw [put_of_ne isName]
      exact others other isName (by simpa using outside)

theorem sameBut_after_replace (differs : name ≠ .temporary name) :
    SameBut [.temporary name] (put dir name content)
      (dir.after (replace (.temporary name) name content)) := by
  intro other outside
  rw [List.mem_singleton] at outside
  rw [after, run_replace differs, Function.update_of_ne outside]

/-- The metadata is the old one or the new one. -/
theorem interrupted_writeMeta (owner : dir.storedId = some id)
    (interrupted : Interrupted dir (dir.writeMeta S draw chain).effects left) :
    SameBut scratch dir left ∨
      SameBut scratch (dir.after (dir.writeMeta S draw chain).effects) left := by
  have shape : (dir.writeMeta S draw chain).effects =
      replace (.temporary .chainMeta) .chainMeta (S.metaJson (dir.metaOf id chain)) := by
    rw [writeMeta, installId_of_storedId owner]
    rfl
  have differs : FileName.chainMeta ≠ .temporary .chainMeta := by simp
  rw [shape] at interrupted ⊢
  rcases interrupted_replace_cases differs interrupted with same | replaced
  · exact .inl (same.mono (by simp [scratch]))
  · have done := @sameBut_after_replace dir (S.metaJson (dir.metaOf id chain)) _ differs
    exact .inr ((done.symm.join replaced).mono (by simp [scratch]))

/-- A plan was interrupted, or the publication of its metadata. -/
theorem interrupted_thenMeta {plan : SavePlan} (owner : (dir.after plan.effects).storedId = some id)
    (interrupted : Interrupted dir (dir.thenMeta S draw chain plan).effects left) :
    Interrupted dir plan.effects left ∨ plan.verdict = .ok () ∧
      (SameBut scratch (dir.after plan.effects) left ∨
        SameBut scratch (dir.after (dir.thenMeta S draw chain plan).effects) left) := by
  unfold thenMeta SavePlan.andThen at interrupted ⊢
  cases done : plan.verdict with
  | error error =>
      rw [done] at interrupted
      exact .inl interrupted
  | ok result =>
      rw [done] at interrupted
      rcases interrupted_append.mp interrupted with body | record
      · exact .inl body
      · refine .inr ⟨rfl, ?_⟩
        rw [after_concat]
        exact interrupted_writeMeta owner record

theorem interrupted_append_blocks (held : dir dir.blocksPath = some old)
    (interrupted : Interrupted dir [.append dir.blocksPath content] left) :
    ∃ part, part <+: content ∧ left = dir.withBlocks (old ++ part) := by
  have unchanged : dir = dir.withBlocks (old ++ []) := by
    rw [List.append_nil, withBlocks, put, ← held, Function.update_eq_self]
  have torn (part : Bytes) : put dir dir.blocksPath ((dir dir.blocksPath).getD [] ++ part) =
      dir.withBlocks (old ++ part) := by
    rw [held]
    rfl
  cases interrupted with
  | stop => exact ⟨[], List.nil_prefix, unchanged⟩
  | torn part =>
      cases part with
      | append inside => exact ⟨_, inside, torn _⟩
  | step later =>
      obtain rfl := interrupted_nil.mp later
      exact ⟨content, List.prefix_refl _, torn content⟩

/-! ## Archives -/

/-- What an interrupted save of an archive has changed. -/
inductive ArchiveLeft (S : Serde) (dir : Datadir) (draw : Bytes) (chain : Chain P)
    (left : Datadir) : Prop where
  | unchanged (same : SameBut scratch dir left)
  /-- A part of the new blocks, but no metadata. -/
  | appended (keeps : dir.savesAnew S chain = false) (part : Bytes) (nonempty : part ≠ [])
      (inside : part <+: S.encode dir.format (chain.blocks.drop (dir.storedBlockCount S)))
      (same : SameBut scratch
        (dir.withBlocks ((dir dir.blocksPath).getD [] ++ part)) left)
  /-- The new block file, but no metadata. -/
  | rewritten (anew : dir.savesAnew S chain = true)
      (written : (S.writeBlocks dir.format chain.blocks).2 = true)
      (same : SameBut scratch (dir.withBlocks (S.encode dir.format chain.blocks)) left)
  | published (done : (dir.saveArchive S draw chain).verdict = .ok ())
      (same : SameBut scratch (dir.after (dir.saveArchive S draw chain).effects) left)

theorem rewriteBodies_of_not_written (failed : (S.writeBlocks dir.format chain.blocks).2 = false) :
    dir.rewriteBodies S chain =
      ⟨[.write (.temporary dir.blocksPath) (S.encode dir.format chain.blocks)],
        .error .recordTooLarge⟩ := by
  simp [rewriteBodies, failed, Serde.encode]

theorem interrupted_rewriteBodies
    (interrupted : Interrupted dir (dir.rewriteBodies S chain).effects left) :
    SameBut scratch dir left ∨ (S.writeBlocks dir.format chain.blocks).2 = true ∧
      SameBut scratch (dir.withBlocks (S.encode dir.format chain.blocks)) left := by
  have inside : [.temporary dir.blocksPath] ⊆ scratch := by
    simpa using temporary_blocksPath_scratch
  cases written : (S.writeBlocks dir.format chain.blocks).2 with
  | true =>
      rw [rewriteBodies_of_written written] at interrupted
      rcases interrupted_replace_cases temporary_ne_blocksPath.symm interrupted with same | replaced
      · exact .inl (same.mono inside)
      · exact .inr ⟨rfl, replaced.mono inside⟩
  | false =>
      rw [rewriteBodies_of_not_written written] at interrupted
      refine .inl ((sameBut_interrupted ?_ interrupted).mono inside)
      simp [Effect.names]

theorem names_bodies {effects : List (Effect FileName)}
    (inside : ∀ effect ∈ effects, ∀ name ∈ effect.names,
      name ∈ [dir.blocksPath, .temporary dir.blocksPath]) :
    (dir.after effects).storedId = dir.storedId := by
  refine (sameBut_after inside).storedId ?_
  have path : dir.blocksPath ≠ .installId := blocksPath_ne (by simp) (by simp)
  simp [path.symm]

theorem storedId_after_rewriteBodies :
    (dir.after (dir.rewriteBodies S chain).effects).storedId = dir.storedId := by
  apply names_bodies
  cases written : (S.writeBlocks dir.format chain.blocks).2 with
  | true => simp [rewriteBodies_of_written written, replace, Effect.names]
  | false => simp [rewriteBodies_of_not_written written, Effect.names]

theorem storedId_after_appendBlocks {blocks : List Block} :
    (dir.after (dir.appendBlocks S blocks).effects).storedId = dir.storedId := by
  apply names_bodies
  simp [appendBlocks_eq, Effect.names]

theorem interrupted_saveArchive (owner : dir.storedId = some id)
    (held : dir dir.blocksPath = some old)
    (interrupted : Interrupted dir (dir.saveArchive S draw chain).effects left) :
    ArchiveLeft S dir draw chain left := by
  have published (done : (dir.saveArchive S draw chain).verdict = .ok ()) := 
    @ArchiveLeft.published P S dir draw chain left done
  cases anew : dir.savesAnew S chain with
  | true =>
      have plan : dir.saveArchive S draw chain =
          dir.thenMeta S draw chain (dir.rewriteBodies S chain) := by
        rw [saveArchive, anew, if_pos rfl]
      rw [plan] at interrupted published
      rcases interrupted_thenMeta (storedId_after_rewriteBodies.trans owner) interrupted with
        body | ⟨done, after | after⟩
      · rcases interrupted_rewriteBodies body with same | ⟨written, same⟩
        · exact .unchanged same
        · exact .rewritten anew written same
      · rcases interrupted_rewriteBodies (Interrupted.whole dir (dir.rewriteBodies S chain).effects)
          with same | ⟨written, same⟩
        · exact .unchanged (same.join after)
        · exact .rewritten anew written (same.join after)
      · exact published (after_thenMeta done).1 after
  | false =>
      by_cases equal : dir.storedBlockCount S = chain.blockCount
      · have plan : dir.saveArchive S draw chain = dir.writeMeta S draw chain := by
          rw [saveArchive, anew, if_neg (by simp), if_pos equal]
        rw [plan] at interrupted published
        rcases interrupted_writeMeta owner interrupted with same | same
        · exact .unchanged same
        · exact published rfl same
      · have plan : dir.saveArchive S draw chain = dir.thenMeta S draw chain
            (dir.appendBlocks S (chain.blocks.drop (dir.storedBlockCount S))) := by
          rw [saveArchive, anew, if_neg (by simp), if_neg equal]
        have torn {some' : Datadir} (inside : Interrupted dir
            (dir.appendBlocks S (chain.blocks.drop (dir.storedBlockCount S))).effects some')
            (after : SameBut scratch some' left) : ArchiveLeft S dir draw chain left := by
          rw [appendBlocks_eq] at inside
          obtain ⟨part, within, rfl⟩ := interrupted_append_blocks held inside
          by_cases nothing : part = []
          · rw [nothing, List.append_nil, withBlocks, put, ← held,
              Function.update_eq_self] at after
            exact .unchanged after
          · refine .appended anew part nothing within ?_
            rw [held]
            exact after
        rw [plan] at interrupted published
        rcases interrupted_thenMeta (storedId_after_appendBlocks.trans owner) interrupted with
          body | ⟨done, after | after⟩
        · exact torn body .refl
        · exact torn (Interrupted.whole _ _) after
        · exact published (after_thenMeta done).1 after

end Datadir

end Nightfall
