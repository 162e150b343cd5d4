import Nightfall.Wallet.VaultStore

/-!
# What a wallet on disk survives

Whatever access to a file fails, and wherever the process stops, the disk holds the wallet
of the last acknowledged change or that of the change that was not acknowledged.  An error
that leaves the store usable left the wallet as it was.
-/

namespace Nightfall

open Faulty (Program Fate Ending Triple)

variable {P : Primitives}

namespace VaultStore

/-! ## Accesses that change nothing -/

section Reading

variable {pre error stop : VaultStore P → Prop} {name : VaultFile} {max : Nat}

theorem triple_access (quiet : ∀ store, pre store → error store ∧ stop store) :
    Triple pre access (fun _ => pre) error stop :=
  .perform (fun _ holds => holds) (fun store _ holds => (quiet store holds).1)
    fun store _ holds => (quiet store holds).2

theorem triple_present (quiet : ∀ store, pre store → error store ∧ stop store) :
    Triple pre (present name)
      (fun found store => pre store ∧ found = (store.files name).isSome) error stop :=
  .bind (triple_access quiet) fun _ => .read

theorem triple_readRequired (quiet : ∀ store, pre store → error store ∧ stop store) :
    Triple pre (readRequired name max)
      (fun content store => pre store ∧ store.files name = some content ∧ content.length ≤ max)
      error stop := by
  refine .bind (triple_access quiet) fun _ => ?_
  refine .bind .read fun found => ?_
  refine .bind (.lift fun store holds => (quiet store holds.1).1) fun content => ?_
  refine .bind (.refuse fun store holds => (quiet store holds.1.1).1) fun _ => .pure ?_
  rintro store ⟨⟨⟨holds, rfl⟩, known⟩, short⟩
  rw [Guard.need_eq_ok] at known
  exact ⟨holds, known, Nat.not_lt.mp short⟩

theorem triple_readOptional (quiet : ∀ store, pre store → error store ∧ stop store) :
    Triple pre (readOptional name max)
      (fun content store => pre store ∧ content = store.files name ∧
        ∀ bytes, content = some bytes → bytes.length ≤ max) error stop := by
  refine .bind (triple_present quiet) fun found => ?_
  split
  · refine .bind (triple_readRequired fun store holds => quiet store holds.1)
      fun content => .pure ?_
    rintro store ⟨⟨holds, -⟩, known, short⟩
    exact ⟨holds, known.symm, fun bytes same => Option.some.inj same ▸ short⟩
  · next absent =>
      refine .pure ?_
      rintro store ⟨holds, rfl⟩
      rw [Option.isSome_iff_ne_none, ne_eq, not_not] at absent
      exact ⟨holds, absent.symm, fun bytes same => by cases same⟩

theorem triple_healthy (quiet : ∀ store, pre store → error store ∧ stop store) :
    Triple pre healthy (fun _ store => pre store ∧ store.unusable = false) error stop := by
  refine .bind .read fun unusable => ?_
  refine (Triple.refuse fun store holds => (quiet store holds.1).1).weaken ?_
  rintro _ store ⟨⟨holds, rfl⟩, usable⟩
  exact ⟨holds, by simpa using usable⟩

/-- Nothing of the legacy format is left. -/
structure Retired (store : VaultStore P) : Prop where
  database : store.files .database = none
  unfinished : store.files .databaseTemporary = none
  seed : store.files .seed = some legacyTombstone ∨ store.files .seed = none ∧ store.disk = none

theorem triple_needsLegacyRetirement
    (quiet : ∀ store, pre store → error store ∧ stop store) :
    Triple pre needsLegacyRetirement
      (fun needed store => pre store ∧ (needed = false → store.Retired)) error stop := by
  refine .bind (triple_present quiet) fun database => ?_
  split
  · exact .pure fun store holds => ⟨holds.1, fun same => by cases same⟩
  next noDatabase =>
  refine .bind (triple_present fun store holds => quiet store holds.1) fun unfinished => ?_
  split
  · exact .pure fun store holds => ⟨holds.1.1, fun same => by cases same⟩
  next finished =>
  refine .bind (triple_readOptional fun store holds => quiet store holds.1.1) fun seed => ?_
  have gone {found : Option Bytes} (absent : ¬found.isSome = true) : found = none := by
    simpa using absent
  split
  · next content =>
      refine .pure ?_
      rintro store ⟨⟨⟨holds, rfl⟩, rfl⟩, known, -⟩
      refine ⟨holds, fun kept => ⟨gone noDatabase, gone finished, .inl ?_⟩⟩
      rw [← known, bne_eq_false_iff_eq.mp kept]
  · refine Triple.read.weaken ?_
    rintro needed store ⟨⟨⟨⟨holds, rfl⟩, rfl⟩, known, -⟩, rfl⟩
    refine ⟨holds, fun empty => ⟨gone noDatabase, gone finished, .inr ⟨known.symm, ?_⟩⟩⟩
    simpa [hasSnapshot] using empty

theorem triple_ready (quiet : ∀ store, pre store → error store ∧ stop store) :
    Triple pre ready
      (fun _ store => pre store ∧ store.unusable = false ∧ store.Retired) error stop := by
  refine .bind (triple_healthy quiet) fun _ => ?_
  refine .bind (triple_needsLegacyRetirement fun store holds => quiet store holds.1)
    fun needed => ?_
  refine (Triple.refuse fun store holds => (quiet store holds.1.1).1).weaken ?_
  rintro _ store ⟨⟨⟨holds, usable⟩, retired⟩, done⟩
  exact ⟨holds, usable, retired (by simpa using done)⟩

theorem triple_checkDisk (host : VaultHost)
    (quiet : ∀ store, pre store → error store ∧ stop store) :
    Triple pre (checkDisk host) (fun _ store => pre store ∧ store.files .snapshot = store.disk)
      error stop := by
  refine .bind (triple_readOptional quiet) fun current => ?_
  refine .bind .read fun disk => ?_
  refine (Triple.refuse fun store holds => (quiet store holds.1.1).1).weaken ?_
  rintro _ store ⟨⟨⟨holds, rfl, -⟩, rfl⟩, same⟩
  exact ⟨holds, not_not.mp same⟩

theorem triple_ofVault {α : Type} {result : Except VaultError α}
    (onError : ∀ store, pre store → error store) :
    Triple pre (ofVault result) (fun value store => pre store ∧ result = .ok value) error stop := by
  refine (Triple.lift onError).weaken ?_
  rintro value store ⟨holds, known⟩
  exact ⟨holds, (Guard.mapError_eq_ok _ _ _).mp known⟩

theorem triple_currentSession (quiet : ∀ store, pre store → error store ∧ stop store) :
    Triple pre currentSession (fun vault store => pre store ∧ store.session = some vault)
      error stop := by
  refine .bind .read fun session => ?_
  refine (Triple.lift fun store holds => (quiet store holds.1).1).weaken ?_
  rintro vault store ⟨⟨holds, rfl⟩, known⟩
  exact ⟨holds, (Guard.need_eq_ok _ _ _).mp known⟩

theorem triple_sessionOf (host : VaultHost) (disk : Option Bytes)
    (onError : ∀ store, pre store → error store) :
    Triple pre (sessionOf host disk)
      (fun session store => pre store ∧ ∀ vault, session = some vault →
        disk = some vault.sealed ∧ vault.unlocked = none) error stop := by
  cases disk with
  | none => exact .pure fun store holds => ⟨holds, fun vault found => by cases found⟩
  | some bytes =>
      refine .bind (triple_ofVault onError) fun vault => .pure ?_
      rintro store ⟨holds, parsed⟩
      refine ⟨holds, fun other found => ?_⟩
      obtain rfl := Option.some.inj found
      exact ⟨congrArg some (Vault.sealed_of_fromBytes parsed), Vault.locked_of_fromBytes parsed⟩

/-- What is verified is the snapshot on disk. -/
theorem triple_verified (host : VaultHost) (password : Text)
    (quiet : ∀ store, pre store → error store ∧ stop store) :
    Triple pre (verified host password)
      (fun result store => pre store ∧ store.files .snapshot = some result.1.sealed)
      error stop := by
  refine .bind (triple_readRequired quiet) fun bytes => ?_
  refine .bind (triple_ofVault fun store holds => (quiet store holds.1).1) fun vault => ?_
  refine .bind .read fun network => ?_
  refine .bind (triple_ofVault fun store holds => (quiet store holds.1.1.1).1) fun opened => ?_
  refine .bind (triple_ofVault fun store holds => (quiet store holds.1.1.1.1).1)
    fun wallet => .pure ?_
  rintro store ⟨⟨⟨⟨⟨holds, present, -⟩, parsed⟩, -⟩, unlocks⟩, -⟩
  refine ⟨holds, ?_⟩
  rw [present, Vault.sealed_of_fromBytes parsed,
    Vault.sealed_of_unlock ((Guard.toExcept_eq_ok _ _).mp unlocks)]

end Reading

/-! ## Files that are being written -/

end VaultStore

/-- Every name but those of files that are being written. -/
def VaultFile.Permanent : VaultFile → Prop
  | pending _ => False
  | retirement _ => False
  | _ => True

namespace VaultStore

/-- Nothing changed but files that are being written. -/
structure Kept (start store : VaultStore P) : Prop where
  files : ∀ name, name.Permanent → store.files name = start.files name
  network : store.network = start.network
  session : store.session = start.session
  disk : store.disk = start.disk
  unusable : store.unusable = start.unusable

/-- The file was replaced, and nothing else changed but files that are being written and
what the store remembers of the snapshot. -/
structure Replaced (name : VaultFile) (content : Bytes) (start store : VaultStore P) : Prop where
  content : store.files name = some content
  others : ∀ other, other.Permanent → other ≠ name → store.files other = start.files other
  network : store.network = start.network
  session : store.session = start.session

section Writing

variable {start : VaultStore P} {error stop : VaultStore P → Prop} {name : VaultFile}
  {content before : Bytes}

theorem Kept.refl (start : VaultStore P) : Kept start start :=
  ⟨fun _ _ => rfl, rfl, rfl, rfl, rfl⟩

/-- An effect on a file that is being written keeps the rest. -/
theorem Kept.touch {store : VaultStore P} (kept : Kept start store)
    {effect : Files.Effect VaultFile} (temporary : ∀ name ∈ effect.names, ¬name.Permanent)
    (fate : Fate) :
    Kept start { store with files := Faulty.leaves effect store.files fate } where
  files other permanent := by
    have outside : other ∉ effect.names := fun member => temporary other member permanent
    exact (Faulty.leaves_of_notMem outside fate).trans (kept.files other permanent)
  network := kept.network
  session := kept.session
  disk := kept.disk
  unusable := kept.unusable

theorem Replaced.touch {store : VaultStore P} (replaced : Replaced name content start store)
    (permanent : name.Permanent) {effect : Files.Effect VaultFile}
    (temporary : ∀ name ∈ effect.names, ¬name.Permanent) (fate : Fate) :
    Replaced name content start
      { store with files := Faulty.leaves effect store.files fate } where
  content := by
    have outside : name ∉ effect.names := fun member => temporary name member permanent
    exact (Faulty.leaves_of_notMem outside fate).trans replaced.content
  others other permanent differs := by
    have outside : other ∉ effect.names := fun member => temporary other member permanent
    exact (Faulty.leaves_of_notMem outside fate).trans (replaced.others other permanent differs)
  network := replaced.network
  session := replaced.session

theorem triple_createPrivateNew (temporary : ¬name.Permanent)
    (quiet : ∀ store, Kept start store → error store ∧ stop store) :
    Triple (Kept start) (createPrivateNew name)
      (fun _ store => Kept start store ∧ store.files name = some []) error stop := by
  have names : ∀ other ∈ (Files.Effect.write name []).names, ¬other.Permanent := by
    simpa [Files.Effect.names] using temporary
  refine .bind .read fun taken => ?_
  refine .bind (.refuse fun store holds => (quiet store holds.1).1) fun _ => ?_
  refine .perform ?_ ?_ ?_
  · rintro store ⟨⟨kept, -⟩, -⟩
    exact ⟨kept.touch names .works, Files.put_self⟩
  · rintro store part ⟨⟨kept, -⟩, -⟩
    exact (quiet _ (kept.touch names _)).1
  · rintro store part ⟨⟨kept, -⟩, -⟩
    exact (quiet _ (kept.touch names _)).2

theorem triple_append (temporary : ¬name.Permanent)
    (quiet : ∀ store, Kept start store → error store ∧ stop store) :
    Triple (fun store => Kept start store ∧ store.files name = some before)
      (touch (.append name content))
      (fun _ store => Kept start store ∧ store.files name = some (before ++ content))
      error stop := by
  have names : ∀ other ∈ (Files.Effect.append name content).names, ¬other.Permanent := by
    simpa [Files.Effect.names] using temporary
  refine .perform ?_ ?_ ?_
  · rintro store ⟨kept, written⟩
    refine ⟨kept.touch names .works, ?_⟩
    simp [Faulty.leaves, Files.Effect.apply, written]
  · rintro store part ⟨kept, -⟩
    exact (quiet _ (kept.touch names _)).1
  · rintro store part ⟨kept, -⟩
    exact (quiet _ (kept.touch names _)).2

/-- A rename over a permanent file happens as a whole, or not. -/
theorem triple_rename {source : VaultFile} (temporary : ¬source.Permanent)
    (permanent : name.Permanent)
    (quiet : ∀ store, Kept start store → error store ∧ stop store)
    (renamed : ∀ store, Replaced name content start store → store.unusable = start.unusable →
      stop store) :
    Triple (fun store => Kept start store ∧ store.files source = some content)
      (touch (.rename source name))
      (fun _ store => Replaced name content start store ∧ store.disk = start.disk ∧
        store.unusable = start.unusable) error stop := by
  have differs : name ≠ source := fun same => temporary (same ▸ permanent)
  have moved {store : VaultStore P} (kept : Kept start store)
      (written : store.files source = some content) :
      Replaced name content start { store with
        files := (Files.Effect.rename source name).apply store.files } := by
    refine ⟨?_, fun other otherPermanent otherDiffers => ?_, kept.network, kept.session⟩
    · simp [Files.Effect.apply, written, differs]
    · have notSource : other ≠ source := fun same => temporary (same ▸ otherPermanent)
      simp only [Files.Effect.apply, written]
      rw [Function.update_of_ne notSource, Files.put_of_ne otherDiffers]
      exact kept.files other otherPermanent
  refine .perform ?_ ?_ ?_
  · rintro store ⟨kept, written⟩
    exact ⟨moved kept written, kept.disk, kept.unusable⟩
  · rintro store part ⟨kept, written⟩
    exact (quiet store kept).1
  · rintro store part ⟨kept, written⟩
    simp only [Faulty.leaves]
    split
    · exact (quiet store kept).2
    · exact renamed _ (moved kept written) kept.unusable

theorem triple_sync (quiet : ∀ store, Kept start store → error store ∧ stop store) :
    Triple (fun store => Kept start store ∧ store.files name = some content) sync
      (fun _ store => Kept start store ∧ store.files name = some content) error stop :=
  triple_access fun store holds => quiet store holds.1

end Writing

/-! ## Commits -/

section Commits

variable {start : VaultStore P} {error stop : VaultStore P → Prop} {host : VaultHost}
  {bytes random : Bytes} {draws : StoreDraws}

/-- The snapshot was replaced and the store does not know for sure. -/
structure Renamed (bytes : Bytes) (start store : VaultStore P) : Prop where
  replaced : Replaced .snapshot bytes start store
  unusable : store.unusable = true

/-- The snapshot was replaced, and the store knows it. -/
structure Persisted (bytes : Bytes) (start store : VaultStore P) : Prop where
  replaced : Replaced .snapshot bytes start store
  disk : store.disk = some bytes
  unusable : store.unusable = false

theorem triple_commitPending (early : ∀ store, Kept start store → stop store)
    (late : ∀ store, Replaced .snapshot bytes start store → stop store) :
    Triple (fun store => Kept start store ∧ store.files (.pending random) = some [])
      (commitPending host bytes random) (fun _ => Persisted bytes start)
      (fun store => Kept start store ∨ Renamed bytes start store) stop := by
  have temporary : ¬(VaultFile.pending random).Permanent := id
  have permanent : VaultFile.Permanent .snapshot := trivial
  have quiet : ∀ store, Kept start store →
      (Kept start store ∨ Renamed bytes start store) ∧ stop store :=
    fun store kept => ⟨.inl kept, early store kept⟩
  have unsure : Triple (fun store => Replaced .snapshot bytes start store ∧
      store.disk = start.disk ∧ store.unusable = start.unusable) (setUnusable true)
      (fun _ => Renamed bytes start) (fun store => Kept start store ∨ Renamed bytes start store)
      stop := by
    refine .modify ?_
    rintro store ⟨⟨content, others, network, session⟩, -⟩
    exact ⟨⟨content, others, network, session⟩, rfl⟩
  refine .bind (triple_append temporary quiet) fun _ => ?_
  refine .bind (triple_append temporary quiet) fun _ => ?_
  rw [List.nil_append, List.take_append_drop]
  refine .bind (triple_sync quiet) fun _ => ?_
  refine .bind (triple_checkDisk host fun store holds => quiet store holds.1) fun _ => ?_
  refine .bind ((triple_rename temporary permanent quiet fun store replaced _ =>
    late store replaced).strengthen fun store holds => holds.1) fun _ => ?_
  refine .bind unsure fun _ => ?_
  refine .bind (triple_access fun store renamed => ⟨.inr renamed, late store renamed.replaced⟩)
    fun _ => ?_
  refine .bind .change fun _ => .modify ?_
  rintro store ⟨before, ⟨⟨content, others, network, session⟩, -⟩, rfl⟩
  exact ⟨⟨content, others, network, session⟩, rfl, rfl⟩

/-- A snapshot is committed.  Before the rename an error leaves everything as it was; behind
it the store is unusable until it is opened again. -/
theorem triple_persist (early : ∀ store, Kept start store → error store ∧ stop store)
    (late : ∀ store, Replaced .snapshot bytes start store →
      (store.unusable = true → error store) ∧ stop store) :
    Triple (Kept start) (persist host bytes draws) (fun _ => Persisted bytes start)
      error stop := by
  refine .bind (triple_healthy early) fun _ => ?_
  refine .bind (triple_ofVault fun store holds => (early store holds.1).1) fun _ => ?_
  refine .bind (triple_checkDisk host fun store holds => early store holds.1.1) fun _ => ?_
  refine .bind (triple_ofVault fun store holds => (early store holds.1.1.1).1) fun random => ?_
  have temporary : ¬(VaultFile.pending random).Permanent := id
  have names : ∀ name ∈ (Files.Effect.remove (VaultFile.pending random)).names,
      ¬name.Permanent := by
    simpa [Files.Effect.names] using temporary
  refine .bind ((triple_createPrivateNew temporary early).strengthen
    fun store holds => holds.1.1.1.1) fun _ => ?_
  refine .ensuring (triple_commitPending (fun store kept => (early store kept).2)
    fun store replaced => (late store replaced).2) (fun _ => ?_) ?_
  · have kept {store : VaultStore P} (fate : Fate) (persisted : Persisted bytes start store) :
        Persisted bytes start { store with
          files := Faulty.leaves (.remove (.pending random)) store.files fate } :=
      ⟨persisted.replaced.touch trivial names fate, persisted.disk, persisted.unusable⟩
    refine .perform (fun store holds => kept .works holds)
      (fun store part holds => kept (.fails part) holds) fun store part holds => ?_
    exact (late _ (kept (.stops part) holds).replaced).2
  · have kept {store : VaultStore P} (fate : Fate)
        (failed : Kept start store ∨ Renamed bytes start store) :
        error { store with files := Faulty.leaves (.remove (.pending random)) store.files fate } ∧
          stop { store with
            files := Faulty.leaves (.remove (.pending random)) store.files fate } := by
      rcases failed with unchanged | ⟨replaced, unusable⟩
      · exact early _ (unchanged.touch names fate)
      · have still := late _ (replaced.touch trivial names fate)
        exact ⟨still.1 unusable, still.2⟩
    exact .perform (fun store holds => (kept .works holds).1)
      (fun store part holds => (kept (.fails part) holds).1)
      fun store part holds => (kept (.stops part) holds).2

/-- The seed was replaced by the tombstone. -/
structure Marked (start store : VaultStore P) : Prop where
  replaced : Replaced .seed legacyTombstone start store
  disk : store.disk = start.disk
  unusable : store.unusable = start.unusable

theorem triple_commitTombstone (early : ∀ store, Kept start store → error store ∧ stop store)
    (late : ∀ store, Marked start store → error store)
    (stopped : ∀ store, Replaced .seed legacyTombstone start store → stop store) :
    Triple (fun store => Kept start store ∧ store.files (.retirement random) = some [])
      (commitTombstone random) (fun _ => Marked start) error stop := by
  have temporary : ¬(VaultFile.retirement random).Permanent := id
  have permanent : VaultFile.Permanent .seed := trivial
  refine .bind (triple_append temporary early) fun _ => ?_
  rw [List.nil_append]
  refine .bind (triple_sync early) fun _ => ?_
  refine .bind (triple_rename temporary permanent early fun store replaced _ =>
    stopped store replaced) fun _ => ?_
  refine (triple_access fun store holds => ⟨?_, stopped store holds.1⟩).weaken
    fun _ store holds => ⟨holds.1, holds.2.1, holds.2.2⟩
  exact late store ⟨holds.1, holds.2.1, holds.2.2⟩

theorem triple_writeTombstone (early : ∀ store, Kept start store → error store ∧ stop store)
    (late : ∀ store, Marked start store → error store)
    (stopped : ∀ store, Replaced .seed legacyTombstone start store → stop store) :
    Triple (Kept start) (writeTombstone draws) (fun _ => Marked start) error stop := by
  refine .bind (triple_ofVault fun store holds => (early store holds).1) fun random => ?_
  have temporary : ¬(VaultFile.retirement random).Permanent := id
  have names : ∀ name ∈ (Files.Effect.remove (VaultFile.retirement random)).names,
      ¬name.Permanent := by
    simpa [Files.Effect.names] using temporary
  refine .bind ((triple_createPrivateNew temporary early).strengthen fun store holds => holds.1)
    fun _ => ?_
  have kept {store : VaultStore P} (fate : Fate) (marked : Marked start store) :
      Marked start { store with
        files := Faulty.leaves (.remove (.retirement random)) store.files fate } :=
    ⟨marked.replaced.touch trivial names fate, marked.disk, marked.unusable⟩
  have early' : ∀ store, Kept start store → (Kept start store ∨ Marked start store) ∧ stop store :=
    fun store kept => ⟨.inl kept, (early store kept).2⟩
  refine .ensuring (triple_commitTombstone early' (fun store marked => .inr marked) stopped)
    (fun _ => ?_) ?_
  · refine .perform (fun store holds => kept .works holds)
      (fun store part holds => kept (.fails part) holds) fun store part holds => ?_
    exact stopped _ (kept (.stops part) holds).replaced
  · have either {store : VaultStore P} (fate : Fate)
        (failed : Kept start store ∨ Marked start store) :
        error { store with
            files := Faulty.leaves (.remove (.retirement random)) store.files fate } ∧
          stop { store with
            files := Faulty.leaves (.remove (.retirement random)) store.files fate } := by
      rcases failed with unchanged | marked
      · exact early _ (unchanged.touch names fate)
      · exact ⟨late _ (kept fate marked), stopped _ (kept fate marked).replaced⟩
    exact .perform (fun store holds => (either .works holds).1)
      (fun store part holds => (either (.fails part) holds).1)
      fun store part holds => (either (.stops part) holds).2

end Commits

end VaultStore

end Nightfall
