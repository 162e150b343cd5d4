import Nightfall.Consensus.Records

/-!
# Rewinding the undo window

Undoing the records of a sequence of bodies restores the ledger exactly unless one of
them re-creates a commitment that is still unspent.  Full validation refuses such a
body, the replay of trusted blocks does not look.  On a chain whose trusted blocks
re-create nothing, the window leads back to the ledger of every height that it covers.
-/

namespace Nightfall

variable {P : Primitives}

/-- No block that the run replays as our own re-creates an unspent commitment. -/
def OverwritesNothingAlong (P : Primitives) (network : NetworkId) (ops : List Op) : Prop :=
  GuardedRun.Along Node.step (fun node op => op.TrustedBy
    (fun chain block => chain.ledger.OverwritesNothing (chain.storedForm block).body) node.chain)
    (Node.start P network) ops

instance (network : NetworkId) (ops : List Op) :
    Decidable (OverwritesNothingAlong P network ops) :=
  inferInstanceAs (Decidable (GuardedRun.Along _ _ _ _))

/-- The undo window of a chain leads back to the ledger of every height that it covers. -/
def Chain.RewindsToHistory (chain : Chain P) : Prop :=
  ∃ full : List Block, chain.headers = full.map (CompactHeader.fromBlock P) ∧
    chain.blocks = full.drop chain.firstHeight ∧
    Chained (ReplaysOn P chain.network) full ∧
    ∀ count ≤ chain.undos.length,
      chain.rewound count = replay P chain.network (full.take (full.length - count))

theorem Follows.rewindsToHistory {chain : Chain P} {full : List Block}
    (follows : Follows (exactRelation P) chain chain.firstHeight full) :
    chain.RewindsToHistory :=
  ⟨full, follows.describes.headers, follows.describes.blocks, follows.replays,
    fun _ inside => follows.rewound inside⟩

theorem Chain.rewindsToHistory_of_run {network : NetworkId} {ops : List Op}
    (collisionFree : CollisionFree P ops) (fits : FitsAlong (P := P) network ops)
    (overwrites : OverwritesNothingAlong P network ops) :
    ((Node.start P network).run ops).chain.RewindsToHistory := by
  obtain ⟨full, holds⟩ := Node.holds_run collisionFree.hash_injOn
    (admissible_of_fitsAlong (R := exactRelation P) fits overwrites)
  exact holds.chain.follows.rewindsToHistory

/-- Rewinding is exact: for a sequence of bodies precisely when none of them re-creates
an unspent commitment of the first state, and for the window of a chain when no block
replayed as our own does. -/
theorem LedgerState.rewind_exact (network : NetworkId) :
    (∀ before state undone steps last undos,
      (forNetwork P network).playBodies before = some (state, undone) →
      state.playBodies steps = some (last, undos) →
      (UndoLog.rewindAll rewind undos last = state ↔
        ∀ commit, Recreates commit steps → state.utxos.get commit = none)) ∧
    ∀ ops, CollisionFree P ops → FitsAlong (P := P) network ops →
      OverwritesNothingAlong P network ops →
      ((Node.start P network).run ops).chain.RewindsToHistory := by
  refine ⟨?_, fun ops collisionFree fits overwrites =>
    Chain.rewindsToHistory_of_run collisionFree fits overwrites⟩
  intro before state undone steps last undos reached played
  exact rewind_exact_iff (tracks_of_playBodies UtxoSet.tracks_empty reached) played

open Sample in
/-- The window after two mined blocks. -/
theorem LedgerState.rewind_exact_mined :
    ((Node.start primitives .devnet).run minedOps).chain.RewindsToHistory :=
  (LedgerState.rewind_exact .devnet).2 minedOps (by decide +kernel) (by decide +kernel)
    ⟨trivial, trivial, trivial⟩

open Sample in
/-- The altered body creates the output of the first block again, so undoing the last
three of the four blocks does not give back the ledger of the first. -/
theorem Chain.rewound_ne_history :
    alteredChain.undos.length = 4 ∧
      alteredChain.rewound 3 ≠ replay primitives .devnet (alteredChain.blocks.take 1) := by
  decide +kernel

end Nightfall
