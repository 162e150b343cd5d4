import Nightfall.Library.ProbeSearch
import Nightfall.Consensus.Records
import Nightfall.Sample

/-!
# Where two chains part

`commonAncestor` looks for the last height at which this node and a peer hold the same
block: it asks at the lower tip, then at doubling distances below it, then bisects.  The
last distance is the largest power of two within `maxReorgDepth`, so a fork between that
distance and the bound is not found.
-/

namespace Nightfall

variable {P : Primitives}

namespace Chain

/-- What a peer answers to a request for one block at a height, `none` for an error. -/
abbrev PeerAnswers := Nat → Option (List Block)

/-- Does the peer hold our block at this height?  `none` where the search breaks off. -/
def agreesAt (chain : Chain P) (request : PeerAnswers) (height : Nat) : Option Bool := do
  let batch ← request height
  let theirs ← batch.head?
  some (decide (chain.hashAt height = some (theirs.hash P)))

/-- The first question, at the lower tip, asked when we have a hash there. -/
def agreesAtCeiling (chain : Chain P) (request : PeerAnswers) (ceiling : Nat) : Bool × Nat :=
  match chain.hashAt ceiling with
  | none => (false, 0)
  | some _ => ((chain.agreesAt request ceiling).getD false, 1)

/-- Highest height at which we and this peer hold the same block, and the number of
requests made. -/
def commonAncestor (chain : Chain P) (request : PeerAnswers) (peerH : Nat)
    (peerTip : Hash256) : Nat × Nat :=
  if chain.hashAt peerH = some peerTip then (peerH, 0)
  else
    let ourH := (chain.tipHeight.map UInt64.toNat).getD 0
    let ceiling := min ourH peerH
    let (agreed, first) := chain.agreesAtCeiling request ceiling
    if agreed then (ceiling, first)
    else
      match ProbeSearch.probeBack (chain.agreesAt request) maxReorgDepth ceiling 0 with
      | (none, asked) => (ceiling - (maxReorgDepth + 1), first + asked)
      | (some lower, asked) =>
          let (found, more) := ProbeSearch.bisect (chain.agreesAt request) lower ceiling
          (found, first + asked + more)

end Chain

/-- A peer that answers with its block at the height. -/
def honestPeer (theirs : List Block) : Chain.PeerAnswers :=
  fun height => some (theirs[height]?.toList)

/-- The lower one of the two tips. -/
def lowerTip (ours theirs : List Block) : Nat :=
  min (ours.length - 1) (theirs.length - 1)

/-- Two block lists share the blocks up to `ancestor` and not the one above. -/
structure ForksAt (P : Primitives) (ours theirs : List Block) (ancestor : Nat) : Prop where
  ours_long : ancestor < ours.length
  theirs_long : ancestor < theirs.length
  shared : ∀ height ≤ ancestor,
    (ours[height]?).map (Block.hash P) = (theirs[height]?).map (Block.hash P)
  parted : ∀ our their, ours[ancestor + 1]? = some our → theirs[ancestor + 1]? = some their →
    our.hash P ≠ their.hash P

section Search

variable {chain : Chain P} {skip ancestor : Nat} {full theirs : List Block}
  {known : Set BlockHeader}

/-- Equal blocks at a height follow equal blocks at every lower height. -/
theorem hashes_agree_below {network : NetworkId}
    (collisionFree : Set.InjOn (BlockHeader.hash P) known)
    (ours : Linked P network full) (other : Linked P network theirs)
    (oursKnown : ∀ block ∈ full, block.header ∈ known)
    (theirsKnown : ∀ block ∈ theirs, block.header ∈ known) {height lower : Nat}
    {our their : Block} (oursAt : full[height]? = some our) (theirsAt : theirs[height]? = some their)
    (same : our.hash P = their.hash P) (below : lower ≤ height) :
    (full[lower]?).map (Block.hash P) = (theirs[lower]?).map (Block.hash P) := by
  have fronts := headers_eq_of_tipHash_eq collisionFree (ours.take (height + 1))
    (other.take (height + 1)) (fun block member => oursKnown block (List.mem_of_mem_take member))
    (fun block member => theirsKnown block (List.mem_of_mem_take member))
    (by simp [List.take_add_one, oursAt]) (by simp [List.take_add_one, theirsAt])
    (by simp [List.take_add_one, oursAt, theirsAt, same])
  have headers := congrArg (fun list : List BlockHeader => list[lower]?) fronts
  simp only [List.getElem?_map, List.getElem?_take_of_lt (Nat.lt_succ_of_le below)] at headers
  have hashes := congrArg (Option.map (BlockHeader.hash P)) headers
  rw [Option.map_map, Option.map_map] at hashes
  exact hashes

/-- The honest peer agrees exactly up to the fork. -/
theorem ForksAt.upTo (forks : ForksAt P full theirs ancestor)
    (describes : Describes chain chain.firstHeight full) (other : Linked P chain.network theirs)
    (collisionFree : Set.InjOn (BlockHeader.hash P) known)
    (oursKnown : ∀ block ∈ full, block.header ∈ known)
    (theirsKnown : ∀ block ∈ theirs, block.header ∈ known) :
    ProbeSearch.UpTo (chain.agreesAt (honestPeer theirs)) ancestor (lowerTip full theirs) := by
  have oursLong := forks.ours_long
  have theirsLong := forks.theirs_long
  intro height inside
  unfold lowerTip at inside
  have oursAt : full[height]? = some full[height] := List.getElem?_eq_getElem (by omega)
  have theirsAt : theirs[height]? = some theirs[height] := List.getElem?_eq_getElem (by omega)
  have asked : chain.agreesAt (honestPeer theirs) height =
      some (decide (full[height].hash P = theirs[height].hash P)) := by
    simp [Chain.agreesAt, honestPeer, describes.hashAt_eq, oursAt, theirsAt]
  rw [asked, Option.some.injEq, decide_eq_decide]
  constructor
  · intro same
    by_contra above
    have next : ancestor + 1 ≤ height := by omega
    have agreed := hashes_agree_below collisionFree describes.linked other oursKnown theirsKnown
      oursAt theirsAt same next
    have ourNext : full[ancestor + 1]? = some full[ancestor + 1] :=
      List.getElem?_eq_getElem (by omega)
    have theirNext : theirs[ancestor + 1]? = some theirs[ancestor + 1] :=
      List.getElem?_eq_getElem (by omega)
    rw [ourNext, theirNext] at agreed
    exact forks.parted _ _ ourNext theirNext (Option.some.inj agreed)
  · intro below
    have agreed := forks.shared height below
    rw [oursAt, theirsAt] at agreed
    exact Option.some.inj agreed

/-- The fork is at the first block, or some doubled distance within the bound and within
the lower chain reaches down to it. -/
def WithinReach (ours theirs : List Block) (ancestor : Nat) : Prop :=
  ancestor = 0 ∨ lowerTip ours theirs - ancestor ≤
    2 ^ Nat.log 2 (min maxReorgDepth (lowerTip ours theirs))

instance (ours theirs : List Block) (ancestor : Nat) : Decidable (WithinReach ours theirs ancestor) :=
  inferInstanceAs (Decidable (_ ∨ _))

/-- The question at the ceiling. -/
theorem agreesAtCeiling_eq (upTo : ProbeSearch.UpTo (chain.agreesAt (honestPeer theirs)) ancestor
      (lowerTip full theirs)) (describes : Describes chain chain.firstHeight full)
    (nonempty : 0 < full.length) :
    chain.agreesAtCeiling (honestPeer theirs) (lowerTip full theirs) =
      (decide (lowerTip full theirs ≤ ancestor), 1) := by
  have inside : lowerTip full theirs < full.length := by
    unfold lowerTip
    omega
  unfold Chain.agreesAtCeiling
  rw [describes.hashAt_eq, List.getElem?_eq_getElem inside, upTo _ le_rfl]
  rfl

/-- Below the ceiling, the probe and the bisection find the ancestor exactly when it is
within reach. -/
theorem probe_and_bisect {ask : Nat → Option Bool} {ceiling bound : Nat}
    (upTo : ProbeSearch.UpTo ask ancestor ceiling) (below : ancestor < ceiling) (some' : 0 < bound) :
    (∃ lower asked, ProbeSearch.probeBack ask bound ceiling 0 = (some lower, asked) ∧
        asked ≤ Nat.log 2 bound + 1 ∧ (ProbeSearch.bisect ask lower ceiling).1 = ancestor ∧
        (ProbeSearch.bisect ask lower ceiling).2 ≤ Nat.log 2 bound + 1 ∧
        ceiling - ancestor ≤ 2 ^ Nat.log 2 (min bound ceiling)) ∨
      ∃ asked, ProbeSearch.probeBack ask bound ceiling 0 = (none, asked) ∧
        asked ≤ Nat.log 2 bound + 1 ∧
        ¬ceiling - ancestor ≤ 2 ^ Nat.log 2 (min bound ceiling) := by
  have asked := @ProbeSearch.probeBack_asked ask bound ceiling 0
  have largest : 2 ^ Nat.log 2 (min bound ceiling) ≤ min bound ceiling :=
    Nat.pow_log_le_self 2 (by omega)
  by_cases reaches : ceiling - ancestor ≤ 2 ^ Nat.log 2 (min bound ceiling)
  · left
    obtain ⟨lower, found, under, near⟩ := ProbeSearch.probeBack_eq_some upTo (Nat.zero_le _)
      (largest.trans (Nat.min_le_left _ _)) (largest.trans (Nat.min_le_right _ _)) reaches
    have narrow : ceiling - lower < 2 ^ (Nat.log 2 bound + 1) :=
      Nat.lt_of_le_of_lt near (Nat.lt_pow_succ_log_self (by decide) bound)
    exact ⟨lower, _, Prod.ext found rfl, asked, ProbeSearch.bisect_eq upTo under below.le le_rfl,
      ProbeSearch.bisect_asked lower ceiling _ narrow, reaches⟩
  · right
    refine ⟨_, Prod.ext (ProbeSearch.probeBack_eq_none upTo ?_) rfl, asked, reaches⟩
    intro reach within inside
    have larger : 2 ^ reach ≤ 2 ^ Nat.log 2 (min bound ceiling) :=
      Nat.pow_le_pow_right (by decide)
        (Nat.le_log_of_pow_le (by decide) (Nat.le_min.mpr ⟨within, inside⟩))
    omega

/-- A peer whose tip we have forks there. -/
theorem ForksAt.eq_of_tip (forks : ForksAt P full theirs ancestor)
    (upTo : ProbeSearch.UpTo (chain.agreesAt (honestPeer theirs)) ancestor (lowerTip full theirs))
    (describes : Describes chain chain.firstHeight full)
    (agreed : chain.hashAt (theirs.length - 1) = some (tipHashOf P chain.network theirs)) :
    ancestor = theirs.length - 1 ∧ lowerTip full theirs = theirs.length - 1 := by
  have oursLong := forks.ours_long
  have theirsLong := forks.theirs_long
  have held := agreed
  rw [describes.hashAt_eq, Option.map_eq_some_iff] at held
  obtain ⟨our, oursAt, -⟩ := held
  obtain ⟨inside, -⟩ := List.getElem?_eq_some_iff.mp oursAt
  have lower : lowerTip full theirs = theirs.length - 1 := by
    unfold lowerTip
    omega
  obtain ⟨front, final, rfl⟩ := (List.eq_nil_or_concat theirs).resolve_left (by
    rintro rfl
    exact Nat.not_lt_zero _ theirsLong)
  rw [List.concat_eq_append] at *
  have asked : chain.agreesAt (honestPeer (front ++ [final])) ((front ++ [final]).length - 1) =
      some true := by
    simp only [List.length_append, List.length_singleton, Nat.add_sub_cancel,
      tipHashOf_concat] at agreed ⊢
    simp [Chain.agreesAt, honestPeer, agreed]
  rw [upTo _ (Nat.le_of_eq lower.symm), Option.some.injEq, decide_eq_true_eq] at asked
  exact ⟨by omega, lower⟩

/-- Where the search ends, and after how many requests. -/
theorem ForksAt.commonAncestor (forks : ForksAt P full theirs ancestor)
    (describes : Describes chain chain.firstHeight full) (other : Linked P chain.network theirs)
    (collisionFree : Set.InjOn (BlockHeader.hash P) known)
    (oursKnown : ∀ block ∈ full, block.header ∈ known)
    (theirsKnown : ∀ block ∈ theirs, block.header ∈ known)
    (shallow : lowerTip full theirs - ancestor ≤ maxReorgDepth) :
    let result := chain.commonAncestor (honestPeer theirs) (theirs.length - 1)
      (tipHashOf P chain.network theirs)
    result.2 ≤ 2 * Nat.log 2 maxReorgDepth + 3 ∧
      (result.1 = ancestor ↔ WithinReach full theirs ancestor) := by
  have oursLong := forks.ours_long
  have theirsLong := forks.theirs_long
  have upTo := forks.upTo describes other collisionFree oursKnown theirsKnown
  have below : ancestor ≤ lowerTip full theirs := by
    unfold lowerTip
    omega
  have atCeiling := agreesAtCeiling_eq upTo describes (by omega)
  have near {height : Nat} (found : height = ancestor) (tip : lowerTip full theirs ≤ ancestor) :
      height = ancestor ↔ WithinReach full theirs ancestor := by
    refine ⟨fun _ => .inr ?_, fun _ => found⟩
    rw [Nat.sub_eq_zero_of_le tip]
    exact Nat.zero_le _
  simp only
  unfold Chain.commonAncestor
  split
  · next agreed =>
      obtain ⟨fork, lower⟩ := forks.eq_of_tip upTo describes agreed
      exact ⟨Nat.zero_le _, near fork.symm (by omega)⟩
  · next disagreed =>
      have tip : min ((chain.tipHeight.map UInt64.toNat).getD 0) (theirs.length - 1) =
          lowerTip full theirs := by
        rw [describes.tipHeight_toNat]
        rfl
      simp only [tip, atCeiling, decide_eq_true_eq]
      split
      · next reached => exact ⟨by simp, near (Nat.le_antisymm reached below) reached⟩
      · next deeper =>
          rcases @probe_and_bisect _ _ _ maxReorgDepth upTo (by omega) (by decide) with
            ⟨lower, asked, probed, few, found, more, reaches⟩ | ⟨asked, probed, few, short⟩
          · rw [probed]
            exact ⟨by simp only; omega, fun _ => .inr reaches, fun _ => found⟩
          · rw [probed]
            refine ⟨by simp only; omega, fun ended => ?_, fun within => ?_⟩
            · simp only at ended
              left
              omega
            · simp only
              have first := within.resolve_right short
              omega

/-- The search returns the height of the fork, after logarithmically many requests, exactly
when the fork is within reach. -/
theorem common_ancestor_exact_iff (forks : ForksAt P full theirs ancestor)
    (describes : Describes chain chain.firstHeight full) (other : Linked P chain.network theirs)
    (collisionFree : Set.InjOn (BlockHeader.hash P) known)
    (oursKnown : ∀ block ∈ full, block.header ∈ known)
    (theirsKnown : ∀ block ∈ theirs, block.header ∈ known)
    (shallow : lowerTip full theirs - ancestor ≤ maxReorgDepth) :
    let result := chain.commonAncestor (honestPeer theirs) (theirs.length - 1)
      (tipHashOf P chain.network theirs)
    (result.1 = ancestor ∧ result.2 ≤ 2 * Nat.log 2 maxReorgDepth + 3) ↔
      WithinReach full theirs ancestor := by
  obtain ⟨few, found⟩ := forks.commonAncestor describes other collisionFree oursKnown theirsKnown
    shallow
  exact ⟨fun ended => found.mp ended.1, fun within => ⟨found.mpr within, few⟩⟩

end Search

/-! ## Two chains of seven blocks -/

namespace Sample

/-- Mine and apply one block for each body. -/
def mineAll : Chain primitives → List BlockBody → Option (List Block × Chain primitives)
  | chain, [] => some ([], chain)
  | chain, body :: rest =>
      match chain.applyBlock (mine chain body) now with
      | (.error _, _) => none
      | (.ok (), next) =>
          (mineAll next rest).map fun (blocks, last) => (mine chain body :: blocks, last)

def coinbaseBodies (first count : Nat) : List BlockBody :=
  (List.range' first count).map fun height => bodyAt (UInt64.ofNat height) [] [] []

def longBodies : List BlockBody :=
  body0 :: body1 :: coinbaseBodies 2 5

/-- The third block has one more output. -/
def otherBodies : List BlockBody :=
  body0 :: body1 :: bodyAt 2 [] [outputOf .plain (commitTo 0 51)] [kernelOf .plain 0 0 51] ::
    coinbaseBodies 3 4

theorem applyAll_of_mineAll {chain last : Chain primitives} {bodies : List BlockBody}
    {blocks : List Block} (mined : mineAll chain bodies = some (blocks, last)) :
    Chain.applyAll now chain blocks = .ok last := by
  induction bodies generalizing chain blocks with
  | nil =>
      obtain ⟨rfl, rfl⟩ := Prod.mk.inj (Option.some.inj mined)
      rfl
  | cons body rest ih =>
      rw [mineAll] at mined
      split at mined
      · contradiction
      · next next applied =>
          obtain ⟨⟨later, reached⟩, minedRest, equal⟩ := Option.map_eq_some_iff.mp mined
          obtain ⟨rfl, rfl⟩ := Prod.mk.inj equal
          simp only [Chain.applyAll, Guard.bind_eq_ok, Guard.toExcept_eq_ok]
          exact ⟨next, applied, ih minedRest⟩

/-- Two lists of seven headers that part after the second one. -/
def PartAfterSecond (ours theirs : List BlockHeader) : Prop :=
  ours.length = 7 ∧ theirs.length = 7 ∧ ours.take 2 = theirs.take 2 ∧
    ((ours ++ theirs.drop 2).map (BlockHeader.hash primitives)).Nodup

instance (ours theirs : List BlockHeader) : Decidable (PartAfterSecond ours theirs) :=
  inferInstanceAs (Decidable (_ ∧ _))

theorem mined_part : ((mineAll (Chain.newFair primitives .devnet) longBodies).bind fun ours =>
    (mineAll (Chain.newFair primitives .devnet) otherBodies).map fun theirs =>
      decide (PartAfterSecond (ours.1.map Block.header) (theirs.1.map Block.header))) =
        some true := by
  decide +kernel

/-- A chain that the blocks were applied to. -/
structure Grown (chain : Chain primitives) : Prop where
  describes : Describes chain chain.firstHeight chain.blocks
  network : chain.network = .devnet
  accepted : ∃ blocks,
    Chain.applyAll now (Chain.newFair primitives .devnet) blocks = .ok chain

theorem grown_of_applyAll {chain : Chain primitives} {blocks : List Block}
    (reached : Chain.applyAll now (Chain.newFair primitives .devnet) blocks = .ok chain)
    (short : blocks.length < 2 ^ 64) :
    Grown chain ∧ chain.blocks.map Block.header = blocks.map Block.header := by
  obtain ⟨follows, network⟩ := Follows.applyAll (Chain.tracked_newFair .devnet)
    (follows_newFair (exactRelation primitives) .devnet) reached (by simpa using short)
  have kept := follows.describes.blocks
  rw [List.nil_append, List.drop_zero] at kept
  have first : chain.firstHeight = 0 := Nat.le_zero.mp follows.describes.first_le
  refine ⟨⟨?_, network, blocks, reached⟩, ?_⟩
  · rw [first, kept]
    exact follows.describes
  · rw [kept, List.map_map]
    apply List.map_congr_left
    intro block _
    exact Chain.storedForm_header _ block

/-- Two chains of the same network that part after the second block. -/
theorem exists_parted : ∃ ours theirs : Chain primitives, Grown ours ∧ Grown theirs ∧
    PartAfterSecond (ours.blocks.map Block.header) (theirs.blocks.map Block.header) := by
  obtain ⟨⟨blocks, ours⟩, mined, found⟩ := Option.bind_eq_some_iff.mp mined_part
  obtain ⟨⟨otherBlocks, theirs⟩, otherMined, part⟩ := Option.map_eq_some_iff.mp found
  rw [decide_eq_true_eq] at part
  have length : blocks.length = 7 := by simpa using part.1
  have otherLength : otherBlocks.length = 7 := by simpa using part.2.1
  obtain ⟨grown, headers⟩ := grown_of_applyAll (applyAll_of_mineAll mined) (by omega)
  obtain ⟨otherGrown, otherHeaders⟩ := grown_of_applyAll (applyAll_of_mineAll otherMined) (by omega)
  exact ⟨ours, theirs, grown, otherGrown, by rw [headers, otherHeaders]; exact part⟩

section Parted

variable {ours theirs : List Block}

theorem PartAfterSecond.forksAt
    (part : PartAfterSecond (ours.map Block.header) (theirs.map Block.header)) {count : Nat}
    (more : 2 ≤ count) : ForksAt primitives ours (theirs.take count) 1 := by
  obtain ⟨oursLength, theirsLength, shared, distinct⟩ := part
  rw [List.length_map] at oursLength theirsLength
  refine ⟨by omega, by rw [List.length_take]; omega, fun height below => ?_, ?_⟩
  · have headers := congrArg (fun list : List BlockHeader => list[height]?) shared
    simp only [List.getElem?_take_of_lt (show height < 2 by omega), List.getElem?_map] at headers
    rw [List.getElem?_take_of_lt (by omega)]
    have hashes := congrArg (Option.map (BlockHeader.hash primitives)) headers
    rw [Option.map_map, Option.map_map] at hashes
    exact hashes
  · intro our their oursAt theirsAt same
    rw [List.getElem?_take] at theirsAt
    split at theirsAt
    · have late : their ∈ theirs.drop 2 :=
        List.mem_of_getElem? ((List.getElem?_drop (i := 2) (j := 0)).trans theirsAt)
      rw [List.map_append, List.nodup_append] at distinct
      refine distinct.2.2 (our.hash primitives) ?_ (their.hash primitives) ?_ same
      · exact List.mem_map_of_mem (List.mem_map_of_mem (List.mem_of_getElem? oursAt))
      · rw [← List.map_drop]
        exact List.mem_map_of_mem (List.mem_map_of_mem late)
    · contradiction

theorem PartAfterSecond.collisionFree
    (part : PartAfterSecond (ours.map Block.header) (theirs.map Block.header)) :
    ∃ known : Set BlockHeader, Set.InjOn (BlockHeader.hash primitives) known ∧
      (∀ block ∈ ours, block.header ∈ known) ∧ ∀ block ∈ theirs, block.header ∈ known := by
  obtain ⟨oursLength, theirsLength, shared, distinct⟩ := part
  refine ⟨{header | header ∈ ours.map Block.header ++ (theirs.map Block.header).drop 2},
    fun left leftMember right rightMember same =>
      List.inj_on_of_nodup_map distinct leftMember rightMember same,
    fun block member => List.mem_append_left _ (List.mem_map_of_mem member),
    fun block member => ?_⟩
  have whole := List.mem_map_of_mem (f := Block.header) member
  rw [← List.take_append_drop 2 (theirs.map Block.header), ← shared, List.mem_append] at whole
  rcases whole with early | late
  · exact List.mem_append_left _ (List.mem_of_mem_take early)
  · exact List.mem_append_right _ late

end Parted

/-- A fork two blocks below the tip of a shorter peer is found. -/
theorem common_ancestor_found : ∃ ours theirs : Chain primitives, Grown ours ∧ Grown theirs ∧
    ForksAt primitives ours.blocks (theirs.blocks.take 4) 1 ∧
    (ours.commonAncestor (honestPeer (theirs.blocks.take 4)) ((theirs.blocks.take 4).length - 1)
      (tipHashOf primitives ours.network (theirs.blocks.take 4))).1 = 1 := by
  obtain ⟨ours, theirs, grown, otherGrown, part⟩ := exists_parted
  obtain ⟨known, collisionFree, oursKnown, theirsKnown⟩ := part.collisionFree
  have forks := @PartAfterSecond.forksAt _ _ part 4 (by decide)
  have tip : lowerTip ours.blocks (theirs.blocks.take 4) = 3 := by
    have oursLength := part.1
    have theirsLength := part.2.1
    rw [List.length_map] at oursLength theirsLength
    rw [lowerTip, List.length_take, oursLength, theirsLength]
    rfl
  have other : Linked primitives ours.network (theirs.blocks.take 4) := by
    rw [grown.network, ← otherGrown.network]
    exact otherGrown.describes.linked.take 4
  have exact' := common_ancestor_exact_iff forks grown.describes other collisionFree oursKnown
    (fun block member => theirsKnown block (List.mem_of_mem_take member)) (by rw [tip]; decide)
  exact ⟨ours, theirs, grown, otherGrown, forks,
    (exact'.mpr (.inr (by rw [tip]; decide))).1⟩

/-- A fork five blocks below two tips at height six is not found. -/
theorem common_ancestor_missed : ∃ ours theirs : Chain primitives, Grown ours ∧ Grown theirs ∧
    ForksAt primitives ours.blocks theirs.blocks 1 ∧
    lowerTip ours.blocks theirs.blocks - 1 ≤ maxReorgDepth ∧
    (ours.commonAncestor (honestPeer theirs.blocks) (theirs.blocks.length - 1)
      (tipHashOf primitives ours.network theirs.blocks)).1 ≠ 1 := by
  obtain ⟨ours, theirs, grown, otherGrown, part⟩ := exists_parted
  obtain ⟨known, collisionFree, oursKnown, theirsKnown⟩ := part.collisionFree
  have theirsLength := part.2.1
  have oursLength := part.1
  rw [List.length_map] at oursLength theirsLength
  have forks := @PartAfterSecond.forksAt _ _ part 7 (by decide)
  rw [List.take_of_length_le (by omega)] at forks
  have tip : lowerTip ours.blocks theirs.blocks = 6 := by
    rw [lowerTip, oursLength, theirsLength]
    rfl
  have shallow : lowerTip ours.blocks theirs.blocks - 1 ≤ maxReorgDepth := by
    rw [tip]
    decide
  have other : Linked primitives ours.network theirs.blocks := by
    rw [grown.network, ← otherGrown.network]
    exact otherGrown.describes.linked
  refine ⟨ours, theirs, grown, otherGrown, forks, shallow, fun ended => ?_⟩
  have found := (forks.commonAncestor grown.describes other collisionFree oursKnown theirsKnown
    shallow).2.mp ended
  rw [WithinReach, tip] at found
  exact absurd found (by decide)

end Sample

end Nightfall
