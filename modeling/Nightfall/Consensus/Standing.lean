import Nightfall.Consensus.Replay
import Nightfall.Consensus.Steps

/-!
# What a chain stands on

Validation reads the headers and the ledger of a chain, never its bodies or its undo
window.  Every chain that follows the replay of a block list therefore answers every
block like the chain that keeps the whole list, whatever bodies it still holds.
-/

namespace Nightfall

variable {P : Primitives}

namespace Chain

/-- The chain that keeps every block of a list and can undo none. -/
def standing (P : Primitives) (network : NetworkId) (full : List Block) : Chain P :=
  { newFair P network with
    ledger := replay P network full
    headers := full.map (CompactHeader.fromBlock P)
    blocks := full
    totalWork := totalBlockWork full }

/-- Two chains that validate alike.  Without a header no body is kept or missing. -/
structure Alike (left right : Chain P) : Prop where
  network : left.network = right.network
  ledger : left.ledger = right.ledger
  headers : left.headers = right.headers
  totalWork : left.totalWork = right.totalWork
  bare : left.headers = [] →
    left.blocks = [] ∧ right.blocks = [] ∧ left.firstHeight = right.firstHeight

namespace Alike

variable {left right other : Chain P}

theorem symm (alike : Alike left right) : Alike right left where
  network := alike.network.symm
  ledger := alike.ledger.symm
  headers := alike.headers.symm
  totalWork := alike.totalWork.symm
  bare none := by
    obtain ⟨first, second, height⟩ := alike.bare (alike.headers.trans none)
    exact ⟨second, first, height.symm⟩

theorem trans (alike : Alike left right) (next : Alike right other) : Alike left other where
  network := alike.network.trans next.network
  ledger := alike.ledger.trans next.ledger
  headers := alike.headers.trans next.headers
  totalWork := alike.totalWork.trans next.totalWork
  bare none := by
    obtain ⟨first, _, height⟩ := alike.bare none
    obtain ⟨_, last, sameHeight⟩ := next.bare (alike.headers ▸ none)
    exact ⟨first, last, height.trans sameHeight⟩

theorem tipHeight (alike : Alike left right) : left.tipHeight = right.tipHeight := by
  unfold Chain.tipHeight
  by_cases none : left.headers = []
  · obtain ⟨first, second, _⟩ := alike.bare none
    rw [alike.headers, first, second]
  · rw [← alike.headers]
    cases found : left.headers.getLast? with
    | none => exact absurd (List.getLast?_eq_none_iff.mp found) none
    | some last => rfl

theorem nextHeight (alike : Alike left right) : left.nextHeight = right.nextHeight := by
  unfold Chain.nextHeight
  rw [alike.tipHeight]
  cases found : right.tipHeight with
  | some height => rfl
  | none =>
      have none : left.headers = [] := by
        rw [← alike.tipHeight, Chain.tipHeight, Option.or_eq_none_iff, Option.map_eq_none_iff,
          List.getLast?_eq_none_iff] at found
        exact found.1
      rw [(alike.bare none).2.2]

theorem tipHash (alike : Alike left right) : left.tipHash = right.tipHash := by
  unfold Chain.tipHash
  by_cases none : left.headers = []
  · obtain ⟨first, second, _⟩ := alike.bare none
    rw [alike.headers, alike.network, first, second]
  · rw [alike.headers, alike.network]
    cases found : right.headers.getLast? with
    | none => exact absurd (alike.headers ▸ List.getLast?_eq_none_iff.mp found) none
    | some last => rfl

theorem blockCount (alike : Alike left right) : left.blockCount = right.blockCount := by
  unfold Chain.blockCount
  by_cases none : left.headers = []
  · obtain ⟨first, second, height⟩ := alike.bare none
    rw [← alike.headers, if_neg (not_not.mpr none), if_neg (not_not.mpr none), first, second,
      height]
  · rw [← alike.headers, if_pos none, if_pos none]

theorem difficultyHistory (alike : Alike left right) :
    left.difficultyHistory = right.difficultyHistory := by
  unfold Chain.difficultyHistory
  by_cases none : left.headers = []
  · obtain ⟨first, second, _⟩ := alike.bare none
    rw [← alike.headers, first, second]
  · rw [← alike.headers, if_pos none, if_pos none]

theorem nextDifficulty (alike : Alike left right) :
    left.nextDifficulty = right.nextDifficulty := by
  rw [Chain.nextDifficulty, Chain.nextDifficulty, alike.difficultyHistory, alike.network]

theorem medianTimePast (alike : Alike left right) :
    left.medianTimePast = right.medianTimePast := by
  unfold Chain.medianTimePast
  by_cases none : left.headers = []
  · obtain ⟨first, second, _⟩ := alike.bare none
    rw [← alike.headers, first, second]
  · rw [← alike.headers, if_pos none, if_pos none]

theorem hashChain (alike : Alike left right) : left.hashChain = right.hashChain := by
  unfold Chain.hashChain
  by_cases none : left.headers = []
  · obtain ⟨first, second, _⟩ := alike.bare none
    rw [← alike.headers, first, second]
  · rw [← alike.headers, if_pos none, if_pos none]

theorem storedForm (alike : Alike left right) : left.storedForm = right.storedForm :=
  storedForm_of_network_eq alike.network

theorem checkBlock (alike : Alike left right) (block : Block) (nowUnix : UInt64)
    (verifyPow : Bool) :
    left.checkBlock block nowUnix verifyPow = right.checkBlock block nowUnix verifyPow := by
  unfold Chain.checkBlock
  rw [alike.nextHeight, alike.tipHash, alike.blockCount, alike.medianTimePast,
    alike.nextDifficulty, alike.ledger, alike.network]

/-- Alike chains give the same verdict on every block. -/
theorem verdict (alike : Alike left right) (block : Block) (nowUnix : UInt64)
    (verifyPow : Bool) :
    left.verdict block nowUnix verifyPow = right.verdict block nowUnix verifyPow := by
  unfold Chain.verdict
  rw [alike.checkBlock, alike.ledger, proofCtx, proofCtx, alike.network]

/-- The same block keeps alike chains alike. -/
theorem extend (alike : Alike left right) (block : Block) (ledger : LedgerState P)
    (undo : StateUndo) :
    Alike (left.extend block ledger undo) (right.extend block ledger undo) where
  network := alike.network
  ledger := rfl
  headers := by rw [extend_headers, extend_headers, alike.headers]
  totalWork := by rw [extend_totalWork, extend_totalWork, alike.totalWork]
  bare none := by simp at none

end Alike

/-! ## A suffix on alike chains -/

section Suffix

variable {left right : Chain P} {nowUnix : UInt64}

/-- What a run of accepted blocks adds to a chain. -/
structure Extends (start last : Chain P) (blocks : List Block) : Prop where
  base : SameBase start last
  blocks : last.blocks = start.blocks ++ blocks.map start.storedForm

/-- Two verdicts of one kind, with related results. -/
def SameVerdict {ε α β : Type*} (related : α → β → Prop) :
    Except ε α → Except ε β → Prop
  | .error left, .error right => left = right
  | .ok left, .ok right => related left right
  | _, _ => False

theorem SameVerdict.mono {ε α β : Type*} {related weaker : α → β → Prop}
    {first : Except ε α} {second : Except ε β} (same : SameVerdict related first second)
    (implies : ∀ left right, related left right → weaker left right) :
    SameVerdict weaker first second := by
  cases first with
  | error left =>
      cases second with
      | error right => exact same
      | ok right => exact same
  | ok left =>
      cases second with
      | error right => exact same
      | ok right => exact implies left right same

/-- A further step that always takes what it is given keeps two verdicts of one kind. -/
theorem SameVerdict.lift {ε α β γ : Type} {related : α → β → Prop} {weaker : α → γ → Prop}
    {first : Except ε α} {second : Except ε β} {next : β → Except ε (Option γ)}
    (same : SameVerdict related first second)
    (kept : ∀ left right, second = .ok right → related left right →
      ∃ result, next right = .ok (some result) ∧ weaker left result) :
    SameVerdict (Option.Rel weaker) (first.map some) (second >>= next) := by
  cases first with
  | error left =>
      cases second with
      | error right => exact same
      | ok right => exact same.elim
  | ok left =>
      cases second with
      | error right => exact same.elim
      | ok right =>
          obtain ⟨result, taken, related⟩ := kept left right rfl same
          have done : (Except.ok right >>= next) = .ok (some result) := taken
          rw [done]
          exact .some related

theorem SameVerdict.cases {ε α β : Type} {related : α → β → Prop}
    {first : Except ε (Option α)} {second : Except ε (Option β)}
    (same : SameVerdict (Option.Rel related) first second) :
    (∃ error, first = .error error ∧ second = .error error) ∨
      (first = .ok none ∧ second = .ok none) ∨
      ∃ left right, first = .ok (some left) ∧ second = .ok (some right) ∧ related left right := by
  cases first with
  | error left =>
      cases second with
      | error right => exact .inl ⟨left, rfl, congrArg _ (Eq.symm same)⟩
      | ok right => exact same.elim
  | ok left =>
      cases second with
      | error right => exact same.elim
      | ok right =>
          cases same with
          | some holds => exact .inr (.inr ⟨_, _, rfl, rfl, holds⟩)
          | none => exact .inr (.inl ⟨rfl, rfl⟩)

section Readings

variable {ε α β : Type} {related : α → β → Prop} {first : Except ε (Option α)}
  {second : Except ε (Option β)}

theorem SameVerdict.of_error (same : SameVerdict (Option.Rel related) first second) {error : ε}
    (failed : first = .error error) : second = .error error := by
  rcases same.cases with ⟨other, left, right⟩ | ⟨left, _⟩ | ⟨_, _, left, _⟩
  · rw [right, Except.error.inj (left.symm.trans failed)]
  · cases left.symm.trans failed
  · cases left.symm.trans failed

theorem SameVerdict.of_none (same : SameVerdict (Option.Rel related) first second)
    (lost : first = .ok none) : second = .ok none := by
  rcases same.cases with ⟨_, left, _⟩ | ⟨_, right⟩ | ⟨_, _, left, _⟩
  · cases left.symm.trans lost
  · exact right
  · cases left.symm.trans lost

theorem SameVerdict.of_some (same : SameVerdict (Option.Rel related) first second) {value : α}
    (won : first = .ok (some value)) :
    ∃ other, second = .ok (some other) ∧ related value other := by
  rcases same.cases with ⟨_, left, _⟩ | ⟨left, _⟩ | ⟨value', other, left, right, holds⟩
  · cases left.symm.trans won
  · cases left.symm.trans won
  · obtain rfl := Option.some.inj (Except.ok.inj (left.symm.trans won))
    exact ⟨other, right, holds⟩

end Readings

theorem Extends.refl (chain : Chain P) : Extends chain chain [] :=
  ⟨⟨rfl, rfl, rfl, rfl⟩, by simp⟩

theorem Extends.cons {start last : Chain P} {block : Block} {rest : List Block}
    {ledger : LedgerState P} {undo : StateUndo}
    (later : Extends (start.extend (start.storedForm block) ledger undo) last rest) :
    Extends start last (block :: rest) where
  base := ⟨later.base.network, later.base.firstHeight, later.base.horizon,
    later.base.horizonWork⟩
  blocks := by
    rw [later.blocks, extend_blocks, storedForm_of_network_eq (extend_network _ _ _ _),
      List.append_assoc]
    rfl

/-- A suffix gets the same verdict on alike chains, and leaves alike chains behind. -/
theorem Alike.applyAll (alike : Alike left right) (tracks : left.ledger.utxos.Tracks)
    (suffix : List Block) :
    SameVerdict (fun last other => Alike last other ∧ Extends left last suffix ∧
        Extends right other suffix)
      (Chain.applyAll nowUnix left suffix) (Chain.applyAll nowUnix right suffix) := by
  induction suffix generalizing left right with
  | nil =>
      exact ⟨alike, Extends.refl left, Extends.refl right⟩
  | cons block rest ih =>
      have tracksRight : right.ledger.utxos.Tracks := alike.ledger ▸ tracks
      simp only [Chain.applyAll, applyBlock_eq tracks, applyBlock_eq tracksRight,
        alike.storedForm, alike.verdict]
      cases judged : right.verdict (right.storedForm block) nowUnix true with
      | error error => rfl
      | ok accepted =>
          obtain ⟨ledger, undo⟩ := accepted
          have next := alike.extend (right.storedForm block) ledger undo
          have nextTracks : ledger.utxos.Tracks := (verdict_eq_ok.mp judged).tracks tracksRight
          refine (ih next nextTracks).mono ?_
          rintro last other ⟨same, first, second⟩
          rw [← alike.storedForm] at first
          exact ⟨same, first.cons, second.cons⟩

end Suffix

/-! ## Accepted lists of blocks -/

/-- Full validation accepts the block, at some moment, on the blocks before it. -/
def Validates (P : Primitives) (network : NetworkId) (before : List Block) (block : Block) :
    Prop :=
  (standing P network before).storedForm block = block ∧
    ∃ nowUnix, ((standing P network before).applyBlock block nowUnix).1 = .ok ()

/-- Full validation accepts every block of the list on the ones before it. -/
abbrev Accepts (P : Primitives) (network : NetworkId) (full : List Block) : Prop :=
  Chained (Validates P network) full

section Accepts

variable {chain last : Chain P} {skip : Nat} {full before after : List Block}
  {nowUnix : UInt64}

theorem alike_of_follows (follows : Follows (exactRelation P) chain skip full) :
    Alike chain (standing P chain.network full) where
  network := rfl
  ledger := follows.live
  headers := follows.describes.headers
  totalWork := follows.describes.work
  bare none := by
    obtain rfl : full = [] := by simpa [follows.describes.headers] using none
    refine ⟨?_, rfl, follows.describes.firstHeight_eq_zero⟩
    rw [follows.describes.blocks, List.drop_nil]

theorem tracks_standing (network : NetworkId) (full : List Block) :
    (standing P network full).ledger.utxos.Tracks :=
  replay_tracks network full

/-- A block that a chain accepts is accepted on the list the chain follows. -/
theorem validates_of_applyBlock (follows : Follows (exactRelation P) chain skip full)
    {offered : Block} (accepted : (chain.applyBlock offered nowUnix).1 = .ok ()) :
    Validates P chain.network full (chain.storedForm offered) := by
  have alike := alike_of_follows follows
  refine ⟨?_, nowUnix, ?_⟩
  · rw [← alike.storedForm, storedForm_storedForm]
  · rw [applyBlock_eq follows.tracks] at accepted
    rw [applyBlock_eq (tracks_standing _ _), ← alike.storedForm, storedForm_storedForm,
      ← alike.verdict]
    cases judged : chain.verdict (chain.storedForm offered) nowUnix true with
    | error error => simp [judged, settle] at accepted
    | ok result => rfl

/-- The blocks that a chain accepts in turn are accepted behind the list it follows. -/
theorem Accepts.of_applyAll (tracked : chain.Tracked)
    (follows : Follows (exactRelation P) chain skip full)
    (accepts : Accepts P chain.network full) {suffix : List Block}
    (reached : Chain.applyAll nowUnix chain suffix = .ok last)
    (fits : full.length + suffix.length < 2 ^ 64) :
    Accepts P chain.network (full ++ suffix.map chain.storedForm) := by
  induction suffix generalizing chain full with
  | nil => simpa using accepts
  | cons block rest ih =>
      rw [List.length_cons] at fits
      simp only [Chain.applyAll, Guard.bind_eq_ok, Guard.toExcept_eq_ok] at reached
      obtain ⟨next, accepted, reachedRest⟩ := reached
      have nextTracked := tracked.applyBlockInner block nowUnix true
      rw [← Chain.applyBlock, accepted] at nextTracked
      have network := (applyBlockInner_network tracked.ledger accepted).1
      have grown := accepts.concat (validates_of_applyBlock follows (by rw [accepted]))
      have later := ih nextTracked (follows.applyBlockInner accepted (by omega))
        (network ▸ grown) reachedRest (by simp; omega)
      rw [storedForm_of_network_eq network, network, List.append_assoc] at later
      exact later

/-- An accepted list can be offered again behind any chain that follows a part of it. -/
theorem Accepts.offerAll (tracked : chain.Tracked)
    (follows : Follows (exactRelation P) chain skip before)
    (accepts : Accepts P chain.network (before ++ after))
    (fits : (before ++ after).length < 2 ^ 64) :
    ∃ offers last, offers.map Prod.fst = after ∧ chain.offerAll offers = .ok last ∧
      Follows (exactRelation P) last skip (before ++ after) := by
  induction after generalizing chain before with
  | nil => exact ⟨[], chain, rfl, rfl, by simpa using follows⟩
  | cons block rest ih =>
      obtain ⟨stored, moment, accepted⟩ := accepts before block rest rfl
      have alike := alike_of_follows follows
      have taken : chain.applyBlock block moment = (.ok (), (chain.applyBlock block moment).2) := by
        refine Prod.ext ?_ rfl
        rw [applyBlock_eq (tracks_standing _ _), ← alike.verdict, ← alike.storedForm] at accepted
        rw [applyBlock_eq follows.tracks]
        cases judged : chain.verdict (chain.storedForm block) moment true with
        | error error => simp [judged, settle] at accepted
        | ok result => rfl
      have nextTracked := tracked.applyBlockInner block moment true
      rw [← Chain.applyBlock] at nextTracked
      have network := (applyBlockInner_network tracked.ledger taken).1
      have next := follows.applyBlockInner taken (by simp at fits; omega)
      rw [alike.storedForm, stored] at next
      rw [List.append_cons] at accepts fits ⊢
      obtain ⟨offers, last, blocks, reached, followsLast⟩ :=
        ih nextTracked next (network ▸ accepts) fits
      exact ⟨(block, moment) :: offers, last, by rw [List.map_cons, blocks],
        offerAll_cons_eq_ok.mpr ⟨_, taken, reached⟩, followsLast⟩

end Accepts

end Chain

end Nightfall
