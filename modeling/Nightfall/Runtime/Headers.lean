import Nightfall.Consensus.Records
import Nightfall.Sample
import Nightfall.Storage.Datadir

/-!
# Serving headers

`get_headers` reads the bodies that are still held and falls back on the compact headers
when there are none.  Its start is moved up to the first kept body before either is read, so
on a pruned chain the heights below are not served.
-/

namespace Nightfall

variable {P : Primitives}

/-! ## The answer -/

/-- What only a body can tell. -/
structure BodyCounts where
  reward : UInt64
  utxoRoot : Bytes
  inputs : Nat
  outputs : Nat
  kernels : Nat
  deriving DecidableEq

structure HeaderEntry where
  height : UInt64
  hash : Bytes
  prevHash : Bytes
  time : UInt64
  difficulty : UInt64
  counts : Option BodyCounts
  deriving DecidableEq

structure HeadersAnswer where
  tipHeight : UInt64
  firstHeight : Nat
  pruned : Bool
  headers : List HeaderEntry
  deriving DecidableEq

namespace HeaderEntry

/-- The entry of a block that is still held. -/
def ofBlock (P : Primitives) (block : Block) : HeaderEntry where
  height := block.header.height
  hash := (block.hash P).toHex
  prevHash := block.header.prevHash.toHex
  time := block.header.timestampUnix
  difficulty := block.header.difficulty
  counts := some {
    reward := block.header.rewardDarks
    utxoRoot := block.header.utxoRoot.toHex
    inputs := block.body.inputs.length
    outputs := block.body.outputs.length
    kernels := block.body.kernels.length }

/-- The entry of a compact header, with the counts left out. -/
def ofHeader (header : CompactHeader) : HeaderEntry where
  height := header.height
  hash := header.hash.toHex
  prevHash := header.prevHash.toHex
  time := header.timestampUnix
  difficulty := header.difficulty
  counts := none

/-- The entry says what a compact header says. -/
structure Reports (entry : HeaderEntry) (header : CompactHeader) : Prop where
  height : entry.height = header.height
  hash : entry.hash = header.hash.toHex
  prevHash : entry.prevHash = header.prevHash.toHex
  time : entry.time = header.timestampUnix
  difficulty : entry.difficulty = header.difficulty

theorem reports_ofBlock (block : Block) :
    (ofBlock P block).Reports (CompactHeader.fromBlock P block) :=
  ⟨rfl, rfl, rfl, rfl, rfl⟩

end HeaderEntry

def maxHeaders : Nat := 512

namespace Chain

/-- The `get_headers` call, with the parameters that were given as numbers. -/
def getHeaders (chain : Chain P) (start limit : Option UInt64) : HeadersAnswer :=
  let tip := chain.tipHeight.getD 0
  let limit := max 1 (min maxHeaders (limit.getD 50).toNat)
  let start := match start with
    | some start => start.toNat
    | none => tip.toNat - (limit - 1)
  let start := max start chain.firstHeight
  let held := (chain.blocksFrom start limit).map (HeaderEntry.ofBlock P)
  { tipHeight := tip
    firstHeight := chain.firstHeight
    pruned := chain.isPruned
    headers :=
      if held = [] ∧ chain.headers ≠ [] then
        ((chain.headers.filter fun header => header.height.toNat ≥ start).take limit).map
          HeaderEntry.ofHeader
      else held }

/-- The entries are those of the consecutive heights from `start` on, up to `limit` of them
and no further than the tip. -/
structure Serves (chain : Chain P) (start limit : Nat) (entries : List HeaderEntry) : Prop where
  length : entries.length = min limit (chain.headers.length - start)
  entries : ∀ (index : Nat) (entry : HeaderEntry), entries[index]? = some entry →
    ∃ header, chain.headers[start + index]? = some header ∧ entry.Reports header ∧
      header.height.toNat = start + index ∧ chain.hashAt (start + index) = some header.hash

variable {chain : Chain P} {start limit : Nat}

/-- Bodies that are held are served as their headers. -/
theorem RecordsAgree.serves_held (agree : chain.RecordsAgree) (kept : chain.firstHeight ≤ start) :
    chain.Serves start limit ((chain.blocksFrom start limit).map (HeaderEntry.ofBlock P)) := by
  have lengths := agree.lengths
  have found := agree.bodies
  constructor
  · rw [blocksFrom, if_neg (Nat.not_lt.mpr kept), List.length_map, List.length_take,
      List.length_drop]
    omega
  · intro index entry present
    rw [blocksFrom, if_neg (Nat.not_lt.mpr kept), List.getElem?_map, Option.map_eq_some_iff]
      at present
    obtain ⟨block, taken, rfl⟩ := present
    have position : chain.firstHeight + (start - chain.firstHeight + index) = start + index := by
      omega
    have held : chain.blocks[start - chain.firstHeight + index]? = some block := by
      rw [List.getElem?_take] at taken
      split at taken
      · rwa [List.getElem?_drop] at taken
      · cases taken
    have header : chain.headers[start + index]? = some (CompactHeader.fromBlock P block) := by
      have same := congrArg (fun headers : List CompactHeader =>
        headers[start - chain.firstHeight + index]?) found
      simp only [List.getElem?_drop, List.getElem?_map, held, Option.map_some, position] at same
      exact same
    refine ⟨_, header, HeaderEntry.reports_ofBlock block, agree.heights _ _ header, ?_⟩
    rw [hashAt, header]
    rfl

/-- With no body to serve there is no header to fall back on either. -/
theorem RecordsAgree.fallback_eq_nil (agree : chain.RecordsAgree)
    (none : chain.headers.length ≤ start) :
    chain.headers.filter (fun header => header.height.toNat ≥ start) = [] := by
  rw [List.filter_eq_nil_iff]
  intro header member
  obtain ⟨index, inside, rfl⟩ := List.mem_iff_getElem.mp member
  rw [decide_eq_true_eq, agree.heights index _ (List.getElem?_eq_getElem inside)]
  omega

/-- What is moved up to the first kept body is not the height that was asked for. -/
theorem Serves.not_serves_below {raised : Nat} {entries : List HeaderEntry}
    (served : chain.Serves raised limit entries) (below : start < raised) (positive : 0 < limit)
    (inside : start < chain.headers.length) : ¬chain.Serves start limit entries := by
  intro asked
  have length := asked.length
  have present : 0 < entries.length := by omega
  obtain ⟨entry, found⟩ : ∃ entry, entries[0]? = some entry :=
    ⟨_, List.getElem?_eq_getElem present⟩
  obtain ⟨header, _, reports, height, _⟩ := asked.entries 0 entry found
  obtain ⟨other, _, others, higher, _⟩ := served.entries 0 entry found
  rw [← reports.height] at height
  rw [← others.height] at higher
  omega

variable {tip startHeight count : UInt64}

theorem RecordsAgree.tipHeight_toNat (agree : chain.RecordsAgree)
    (tipHeight : chain.tipHeight = some tip) : tip.toNat + 1 = chain.headers.length := by
  cases last : chain.headers.getLast? with
  | none =>
      have headers := List.getLast?_eq_none_iff.mp last
      have lengths := agree.lengths
      rw [headers, List.length_nil] at lengths
      have blocks : chain.blocks = [] := List.length_eq_zero_iff.mp (by omega)
      rw [Chain.tipHeight, headers, blocks] at tipHeight
      cases tipHeight
  | some header =>
      rw [Chain.tipHeight, last, Option.map_some, Option.some_or, Option.some.injEq] at tipHeight
      rw [List.getLast?_eq_getElem?] at last
      obtain ⟨inside, _⟩ := List.getElem?_eq_some_iff.mp last
      rw [← tipHeight, agree.heights _ _ last]
      omega

/-- Whatever is asked, the answer serves the heights from the first kept body on. -/
theorem RecordsAgree.serves_raised (agree : chain.RecordsAgree)
    (range : 1 ≤ count.toNat ∧ count.toNat ≤ maxHeaders) :
    chain.Serves (max startHeight.toNat chain.firstHeight) count.toNat
      (chain.getHeaders (some startHeight) (some count)).headers := by
  have clamped : max 1 (min maxHeaders count.toNat) = count.toNat := by omega
  have held := @RecordsAgree.serves_held P chain _ count.toNat agree
    (le_max_right startHeight.toNat chain.firstHeight)
  simp only [getHeaders, Option.getD_some, clamped]
  split
  next missing =>
      have length := held.length
      rw [missing.1, List.length_nil] at length
      rw [agree.fallback_eq_nil (by omega), List.take_nil, List.map_nil]
      rw [missing.1] at held
      exact held
  next => exact held

/-- On a chain whose records agree, the heights up to the tip are served exactly from the
first kept body on. -/
theorem RecordsAgree.headers_served_iff (agree : chain.RecordsAgree)
    (tipHeight : chain.tipHeight = some tip) (reached : startHeight ≤ tip)
    (range : 1 ≤ count.toNat ∧ count.toNat ≤ maxHeaders) :
    chain.Serves startHeight.toNat count.toNat
        (chain.getHeaders (some startHeight) (some count)).headers ↔
      chain.firstHeight ≤ startHeight.toNat := by
  have served := @RecordsAgree.serves_raised P chain startHeight count agree range
  have top := agree.tipHeight_toNat tipHeight
  have within := UInt64.le_iff_toNat_le.mp reached
  constructor
  · intro asked
    by_contra below
    rw [max_eq_right (by omega)] at served
    exact served.not_serves_below (by omega) (by omega) (by omega) asked
  · intro kept
    rwa [max_eq_left kept] at served

end Chain

/-- After every run, `get_headers` answers with the headers of the heights that were asked
for exactly when their bodies are still held. -/
theorem Node.getHeaders_serves_iff {network : NetworkId} {ops : List Op}
    (collisionFree : CollisionFree P ops) (fits : FitsAlong (P := P) network ops) :
    let chain := ((Node.start P network).run ops).chain
    ∀ (start tip limit : UInt64), chain.tipHeight = some tip → start ≤ tip →
      1 ≤ limit.toNat ∧ limit.toNat ≤ maxHeaders →
      (chain.Serves start.toNat limit.toNat (chain.getHeaders (some start) (some limit)).headers ↔
        chain.firstHeight ≤ start.toNat) := by
  intro chain start tip limit tipHeight reached range
  exact (Node.recordsAgree_of_run collisionFree fits).1.headers_served_iff tipHeight reached
    range

namespace Sample

/-- Three blocks, of which the first one loses its body. -/
def headerOps : List Op :=
  [.applyBlock block0 now, .applyBlock block1 now, .applyBlock block2 now, .pruneKeep 2]

/-- The two heights with bodies are served. -/
theorem getHeaders_held :
    let chain := ((Node.start primitives .devnet).run headerOps).chain
    chain.Serves 1 2 (chain.getHeaders (some 1) (some 2)).headers := by
  intro chain
  exact (Node.getHeaders_serves_iff (by decide +kernel) (by decide +kernel) 1 2 2
    (by decide +kernel) (by decide) (by decide)).mpr (by decide +kernel)

/-- Asked for the first header, the node answers with the second one. -/
theorem getHeaders_below_horizon :
    let chain := ((Node.start primitives .devnet).run headerOps).chain
    chain.tipHeight = some 2 ∧ chain.headers.length = 3 ∧
      (chain.getHeaders (some 0) (some 1)).headers.map HeaderEntry.height = [1] ∧
      ¬chain.Serves 0 1 (chain.getHeaders (some 0) (some 1)).headers := by
  intro chain
  have heights : (chain.getHeaders (some 0) (some 1)).headers.map HeaderEntry.height = [1] := by
    decide +kernel
  refine ⟨by decide +kernel, by decide +kernel, heights, ?_⟩
  intro served
  obtain ⟨entry, single, height⟩ := List.map_eq_singleton_iff.mp heights
  obtain ⟨header, _, reports, zero, _⟩ := served.entries 0 entry (by rw [single]; rfl)
  rw [← reports.height, height] at zero
  exact absurd zero (by decide)

end Sample

end Nightfall
