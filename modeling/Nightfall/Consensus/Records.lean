import Nightfall.Consensus.Steps

/-!
# The records of a chain agree

Bodies, headers, the first kept height, the undo window and the total work encode one
list of blocks.  The invariant of a run says which list, so the agreement is read off
it, and so is what a step may take away.
-/

namespace Nightfall

variable {P : Primitives}

/-- The five redundant records of a chain describe the same blocks. -/
structure Chain.RecordsAgree (chain : Chain P) : Prop where
  heights : ∀ (index : Nat) (header : CompactHeader),
    chain.headers[index]? = some header → header.height.toNat = index
  lengths : chain.headers.length = chain.firstHeight + chain.blocks.length
  bodies : chain.headers.drop chain.firstHeight = chain.blocks.map (CompactHeader.fromBlock P)
  genesis : ∀ header : CompactHeader, chain.headers[0]? = some header →
    header.prevHash = genesisHash P chain.network
  links : ∀ (index : Nat) (header next : CompactHeader), chain.headers[index]? = some header →
    chain.headers[index + 1]? = some next → next.prevHash = header.hash
  work : chain.totalWork = (chain.headers.map CompactHeader.work).sum
  work_lt : chain.totalWork < 2 ^ 128
  undos_le : chain.undos.length ≤ maxReorgDepth
  undoWorks : ∀ (depth : Nat) (undo : TipUndo), chain.undos.reverse[depth]? = some undo →
    ∃ header : CompactHeader, chain.headers.reverse[depth]? = some header ∧ undo.work = header.work

/-- Every block of the first chain is still one of the second, as far as it keeps
bodies. -/
structure Chain.KeepsBlocks (before after : Chain P) : Prop where
  headers : before.headers <+: after.headers
  bodies : ∀ height block, before.blockByHeight height = some block →
    after.firstHeight ≤ height → after.blockByHeight height = some block

section Reading

variable {chain : Chain P} {full : List Block}

/-- The header at a position is the header of a block that links to the ones before. -/
theorem Describes.header_at {skip : Nat} (describes : Describes chain skip full) {index : Nat}
    {header : CompactHeader} (found : chain.headers[index]? = some header) :
    ∃ block, full[index]? = some block ∧ header = CompactHeader.fromBlock P block ∧
      LinksTo P chain.network (full.take index) block := by
  rw [describes.headers, List.getElem?_map, Option.map_eq_some_iff] at found
  obtain ⟨block, present, rfl⟩ := found
  exact ⟨block, present, rfl, describes.linked.at_index present⟩

/-- The hash at a height is the one of the block in the history. -/
theorem Describes.hashAt_eq (describes : Describes chain chain.firstHeight full) (height : Nat) :
    chain.hashAt height = full[height]?.map (Block.hash P) := by
  unfold Chain.hashAt
  rw [describes.headers, List.getElem?_map, Option.map_map]
  cases found : full[height]? with
  | some block => rfl
  | none =>
      have outside : full.length ≤ height := List.getElem?_eq_none_iff.mp found
      have missing : chain.blocks[height - chain.firstHeight]? = none := by
        rw [describes.blocks, List.getElem?_drop, List.getElem?_eq_none_iff]
        have := describes.skip_le
        omega
      unfold Chain.blockByHeight
      rw [missing]
      split <;> rfl

theorem Describes.recordsAgree (describes : Describes chain chain.firstHeight full) :
    chain.RecordsAgree where
  heights := by
    intro index header found
    obtain ⟨block, present, rfl, links⟩ := describes.header_at found
    obtain ⟨inside, _⟩ := List.getElem?_eq_some_iff.mp present
    rw [CompactHeader.fromBlock, links.height, List.length_take]
    omega
  lengths := by
    have bound := describes.skip_le
    rw [describes.headers, describes.blocks, List.length_map, List.length_drop]
    omega
  bodies := by rw [describes.headers, describes.blocks, List.map_drop]
  genesis := by
    intro header found
    obtain ⟨block, _, rfl, links⟩ := describes.header_at found
    simpa [CompactHeader.fromBlock, tipHashOf] using links.prevHash
  links := by
    intro index header next found foundNext
    obtain ⟨block, present, rfl, _⟩ := describes.header_at found
    obtain ⟨nextBlock, _, rfl, links⟩ := describes.header_at foundNext
    obtain ⟨inside, rfl⟩ := List.getElem?_eq_some_iff.mp present
    have before : full.take (index + 1) = full.take index ++ [full[index]] :=
      List.take_succ_eq_append_getElem inside
    have linked := links.prevHash
    rw [before, tipHashOf_concat] at linked
    exact linked
  work := by
    rw [describes.work, describes.headers, List.map_map]
    rfl
  work_lt := by
    rw [describes.work]
    exact totalBlockWork_lt describes.fits
  undos_le := describes.undos_le
  undoWorks := by
    intro depth undo found
    have works := List.reverse_prefix.mpr describes.undoWorks
    obtain ⟨older, split⟩ := works
    have recorded : (full.map Block.work).reverse[depth]? = some undo.work := by
      rw [← split, List.getElem?_append_left, ← List.map_reverse, List.getElem?_map, found]
      · rfl
      · simpa using (List.getElem?_eq_some_iff.mp found).1
    rw [← List.map_reverse, List.getElem?_map, Option.map_eq_some_iff] at recorded
    obtain ⟨block, present, same⟩ := recorded
    refine ⟨CompactHeader.fromBlock P block, ?_, same.symm⟩
    rw [describes.headers, ← List.map_reverse, List.getElem?_map, present]
    rfl

/-- The bodies of a chain, by height. -/
theorem Describes.blockByHeight_eq_some (describes : Describes chain chain.firstHeight full)
    {height : Nat} {block : Block} :
    chain.blockByHeight height = some block ↔
      chain.firstHeight ≤ height ∧ full[height]? = some block := by
  unfold Chain.blockByHeight
  split
  next below => simp; omega
  next kept =>
      have above := Nat.not_lt.mp kept
      have position : chain.firstHeight + (height - chain.firstHeight) = height := by omega
      rw [describes.blocks, List.getElem?_drop, position, Option.filter_eq_some_iff]
      constructor
      · rintro ⟨found, _⟩
        exact ⟨above, found⟩
      · rintro ⟨_, found⟩
        have links := describes.linked.at_index found
        obtain ⟨inside, _⟩ := List.getElem?_eq_some_iff.mp found
        refine ⟨found, ?_⟩
        rw [decide_eq_true_eq, links.height, List.length_take]
        omega

theorem Chain.KeepsBlocks.of_prefix {next : Chain P} {nextFull : List Block}
    (describes : Describes chain chain.firstHeight full)
    (nextDescribes : Describes next next.firstHeight nextFull) (extended : full <+: nextFull) :
    Chain.KeepsBlocks chain next where
  headers := by
    rw [describes.headers, nextDescribes.headers]
    exact extended.map _
  bodies := by
    intro height block found kept
    rw [describes.blockByHeight_eq_some] at found
    rw [nextDescribes.blockByHeight_eq_some]
    obtain ⟨rest, rfl⟩ := extended
    obtain ⟨inside, _⟩ := List.getElem?_eq_some_iff.mp found.2
    exact ⟨kept, by rw [List.getElem?_append_left inside, found.2]⟩

end Reading

/-! ## Runs -/

/-- The headers that a run offers to the node. -/
def offeredHeaders (ops : List Op) : Set BlockHeader :=
  {header | ∃ op ∈ ops, ∃ block ∈ op.blocks, block.header = header}

/-- The byte strings that Blake3 reads to hash the headers that a run offers. -/
def offeredPreimages (P : Primitives) (ops : List Op) : List Bytes :=
  ops.flatMap fun op => op.blocks.flatMap fun block => block.header.preimages P

/-- Blake3 does not collide on the headers that a run offers. -/
def CollisionFree (P : Primitives) (ops : List Op) : Prop :=
  ∀ left ∈ offeredPreimages P ops, ∀ right ∈ offeredPreimages P ops,
    P.blake3 left = P.blake3 right → left = right

instance (P : Primitives) (ops : List Op) : Decidable (CollisionFree P ops) :=
  inferInstanceAs (Decidable (∀ left ∈ offeredPreimages P ops,
    ∀ right ∈ offeredPreimages P ops, P.blake3 left = P.blake3 right → left = right))

theorem CollisionFree.hash_injOn {ops : List Op} (collisionFree : CollisionFree P ops) :
    Set.InjOn (BlockHeader.hash P) (offeredHeaders ops) := by
  apply BlockHeader.hash_injOn
  have offered : ∀ bytes, (∃ header ∈ offeredHeaders ops, bytes ∈ header.preimages P) →
      bytes ∈ offeredPreimages P ops := by
    rintro bytes ⟨_, ⟨op, inOps, block, inBlocks, rfl⟩, inHeader⟩
    exact List.mem_flatMap.mpr ⟨op, inOps, List.mem_flatMap.mpr ⟨block, inBlocks, inHeader⟩⟩
  intro left leftOffered right rightOffered same
  exact collisionFree left (offered left leftOffered) right (offered right rightOffered) same

/-- Every state of the run is in memory. -/
def FitsAlong (network : NetworkId) (ops : List Op) : Prop :=
  GuardedRun.Along Node.step (fun node op => (node.step op).Fits) (Node.start P network) ops

instance (network : NetworkId) (ops : List Op) : Decidable (FitsAlong (P := P) network ops) :=
  inferInstanceAs (Decidable (GuardedRun.Along _ _ _ _))

/-- The steps of a run in memory are admissible for a relation that its replays keep. -/
theorem admissible_of_fitsAlong {R : LiveRelation P} {network : NetworkId} {ops : List Op}
    (fits : FitsAlong (P := P) network ops)
    (admits : GuardedRun.Along Node.step (fun node op => op.TrustedBy
      (fun chain block => R.admits chain.ledger (chain.storedForm block).body) node.chain)
      (Node.start P network) ops) :
    GuardedRun.Along Node.step (Admissible R (offeredHeaders ops)) (Node.start P network) ops := by
  have offered : GuardedRun.Along Node.step
      (fun _ op => ∀ block ∈ op.blocks, block.header ∈ offeredHeaders ops)
      (Node.start P network) ops :=
    GuardedRun.Along.of_forall_mem _
      fun op member block inBlocks => ⟨op, member, block, inBlocks, rfl⟩
  exact (offered.and (GuardedRun.Along.and fits admits)).mono
    fun _ _ ⟨known, fits, admits⟩ => ⟨known, fits, admits⟩

/-- A condition that always holds is no condition on a run. -/
theorem trustedBy_of_forall {condition : Chain P → Block → Prop}
    (always : ∀ chain block, condition chain block) (network : NetworkId) (ops : List Op) :
    GuardedRun.Along Node.step (fun node op => op.TrustedBy condition node.chain)
      (Node.start P network) ops := by
  refine (GuardedRun.Along.of_forall_mem (Node.start P network)
    (fun (op : Op) (_ : op ∈ ops) => trivial)).mono ?_
  intro node op _
  cases op <;> simp only [Op.TrustedBy]
  case applyBlockFromOwnDisk block => exact always node.chain block
  case maybeReorgTo blocks nowUnix => exact Chain.AlongTrusted.of_forall always _ _ _ _

/-- In every state of a run the records agree, and a step that removes a block strictly
increases the total work. -/
theorem Node.recordsAgree_of_run {network : NetworkId} {ops : List Op}
    (collisionFree : CollisionFree P ops) (fits : FitsAlong (P := P) network ops) :
    ((Node.start P network).run ops).chain.RecordsAgree ∧
      ∀ before op after, ops = before ++ op :: after →
        let node := (Node.start P network).run before
        Chain.KeepsBlocks node.chain (node.step op).chain ∨
          node.chain.totalWork < (node.step op).chain.totalWork := by
  have injective := collisionFree.hash_injOn
  have admissible := admissible_of_fitsAlong (R := belowRelation P) fits
    (trustedBy_of_forall (fun _ _ => trivial) network ops)
  refine ⟨?_, ?_⟩
  · obtain ⟨full, holds⟩ := Node.holds_run injective admissible
    exact holds.chain.follows.describes.recordsAgree
  · rintro before op after split
    rw [split] at admissible
    obtain ⟨earlier, later⟩ := admissible.append
    rw [← split] at earlier later
    obtain ⟨full, holds⟩ := Node.holds_run injective earlier
    obtain ⟨next, nextHolds, progress⟩ := holds.step injective later.1
    have describes := holds.chain.follows.describes
    have nextDescribes := nextHolds.chain.follows.describes
    rcases progress with extended | heavier
    · exact Or.inl (Chain.KeepsBlocks.of_prefix describes nextDescribes extended)
    · right
      rw [← describes.work, ← nextDescribes.work] at heavier
      exact heavier

open Sample in
/-- The hypotheses hold along a run with a reorg. -/
theorem Node.recordsAgree_of_honest :
    ((Node.start primitives .devnet).run honestOps).chain.RecordsAgree :=
  (Node.recordsAgree_of_run (by decide +kernel) (by decide +kernel)).1

end Nightfall
