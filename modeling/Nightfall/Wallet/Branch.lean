import Nightfall.Ledger.Accepted
import Nightfall.Ledger.Undo
import Nightfall.Wallet.Light

/-!
# Runs of blocks

The lists of blocks that wallets are shown: consecutive heights, hash links, and
acceptance by the ledger one block after the other.
-/

namespace Nightfall

variable {P : Primitives}

namespace Block

/-- Every block sits one above the block before it. -/
def Consecutive (blocks : List Block) : Prop :=
  blocks.IsChain fun earlier later => later.height.toNat = earlier.height.toNat + 1

variable (P) in
/-- Every block names the hash of the block before it and sits one above it. -/
def Linked (blocks : List Block) : Prop :=
  blocks.IsChain fun earlier later =>
    later.header.prevHash = earlier.hash P ∧
      later.height.toNat = earlier.height.toNat + 1

instance (blocks : List Block) : Decidable (Consecutive blocks) :=
  inferInstanceAs (Decidable (List.IsChain _ blocks))

instance (blocks : List Block) : Decidable (Linked P blocks) :=
  inferInstanceAs (Decidable (List.IsChain _ blocks))

theorem Linked.consecutive {blocks : List Block} (linked : Linked P blocks) :
    Consecutive blocks :=
  List.IsChain.imp (fun _ _ related => related.2) linked

/-- The heights of a run count up from the first one. -/
theorem Consecutive.height_eq {first : Block} {rest : List Block}
    (consecutive : Consecutive (first :: rest)) {index : Nat} {block : Block}
    (found : (first :: rest)[index]? = some block) :
    block.height.toNat = first.height.toNat + index := by
  induction index generalizing first rest with
  | zero =>
      cases found
      rfl
  | succ index ih =>
      cases rest with
      | nil => simp at found
      | cons second rest =>
          have step := (List.isChain_cons_cons.mp consecutive).1
          have later := ih (List.isChain_cons_cons.mp consecutive).2
            (by simpa using found)
          omega

theorem Consecutive.le_height {first : Block} {rest : List Block}
    (consecutive : Consecutive (first :: rest)) {block : Block}
    (member : block ∈ first :: rest) :
    first.height.toNat ≤ block.height.toNat ∧
      block.height.toNat < first.height.toNat + (rest.length + 1) := by
  obtain ⟨index, inside, rfl⟩ := List.getElem_of_mem member
  have height := consecutive.height_eq (List.getElem?_eq_getElem inside)
  rw [List.length_cons] at inside
  omega

/-- The last block of a run is the highest. -/
theorem Consecutive.getLast_height {first : Block} {rest : List Block}
    (consecutive : Consecutive (first :: rest)) :
    ((first :: rest).getLast (by simp)).height.toNat = first.height.toNat + rest.length := by
  rw [List.getLast_eq_getElem]
  exact consecutive.height_eq (by simp)

/-- The largest height of a run, counted from a height that the run reaches, is that of
its last block. -/
theorem Consecutive.foldl_max {first : Block} {rest : List Block} {start : UInt64}
    (consecutive : Consecutive (first :: rest))
    (reached : start.toNat ≤ first.height.toNat + rest.length) :
    (first :: rest).foldl (fun highest block => max highest block.height) start =
      ((first :: rest).getLast (by simp)).height := by
  induction rest generalizing first start with
  | nil =>
      apply UInt64.toNat_inj.mp
      simpa [UInt64.toNat_max] using reached
  | cons second rest ih =>
      have step := (List.isChain_cons_cons.mp consecutive).1
      rw [List.foldl_cons, ih (List.isChain_cons_cons.mp consecutive).2, List.getLast_cons_cons]
      rw [UInt64.toNat_max]
      simp only [List.length_cons] at reached
      omega

end Block

namespace LedgerState

/-- The ledger accepts these blocks one after the other, the first one at `height`. -/
def Accepts (ctx : Bytes) : LedgerState P → Nat → List Block → Prop
  | _, _, [] => True
  | state, height, block :: rest =>
      let applied := state.applyBlock block.body block.height (subsidyAt state block.height) ctx
      block.height.toNat = height ∧ applied.1 = .ok () ∧
        Accepts ctx applied.2 (height + 1) rest

instance Accepts.decidable (ctx : Bytes) : (state : LedgerState P) → (height : Nat) →
    (blocks : List Block) → Decidable (Accepts ctx state height blocks)
  | _, _, [] => isTrue trivial
  | state, height, block :: rest =>
      have := Accepts.decidable ctx
        (state.applyBlock block.body block.height (subsidyAt state block.height) ctx).2
        (height + 1) rest
      inferInstanceAs (Decidable (_ ∧ _ ∧ _))

theorem Accepts.height_eq {ctx : Bytes} {state : LedgerState P} {height : Nat}
    {blocks : List Block} (accepted : state.Accepts ctx height blocks) {index : Nat}
    {block : Block} (found : blocks[index]? = some block) :
    block.height.toNat = height + index := by
  induction blocks generalizing state height index with
  | nil => simp at found
  | cons first rest ih =>
      cases index with
      | zero =>
          cases found
          exact accepted.1
      | succ index =>
          have later := ih accepted.2.2 (by simpa using found)
          omega

/-- Accepted blocks have consecutive heights. -/
theorem Accepts.consecutive {ctx : Bytes} {state : LedgerState P} {height : Nat}
    {blocks : List Block} (accepted : state.Accepts ctx height blocks) :
    Block.Consecutive blocks := by
  induction blocks generalizing state height with
  | nil => exact List.isChain_nil
  | cons first rest ih =>
      cases rest with
      | nil => exact List.isChain_singleton first
      | cons second rest =>
          refine List.isChain_cons_cons.mpr ⟨?_, ih accepted.2.2⟩
          rw [accepted.1]
          exact accepted.2.2.1

/-- Every output of an applied body passed the ledger's output check. -/
theorem checkOutput_of_applied {state : LedgerState P} {body : BlockBody}
    {height expectedReward : UInt64} {ctx : Bytes}
    (applied : (state.applyBlock body height expectedReward ctx).1 = .ok ()) :
    ∀ output ∈ body.outputs, checkOutput P ctx output = .ok () := by
  intro output member
  simp only [applyBlock] at applied
  split at applied
  · simp at applied
  · next staged validated =>
      obtain ⟨coinbase, offset, valid⟩ := validate_eq_ok.mp validated
      exact valid.outputs output (by simpa using member)

theorem Accepts.checkOutput {ctx : Bytes} {state : LedgerState P} {height : Nat}
    {blocks : List Block} (accepted : state.Accepts ctx height blocks) :
    ∀ block ∈ blocks, ∀ output ∈ block.body.outputs,
      LedgerState.checkOutput P ctx output = .ok () := by
  induction blocks generalizing state height with
  | nil => simp
  | cons first rest ih =>
      intro block member
      cases List.mem_cons.mp member with
      | inl here =>
          subst here
          exact checkOutput_of_applied accepted.2.1
      | inr later => exact ih accepted.2.2 block later

end LedgerState

end Nightfall
