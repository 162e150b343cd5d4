import Nightfall.Consensus.Follows

/-!
# Blocks at a later time

The clock enters the validation of a block in one bound only, so what is accepted once is
accepted at any later time.
-/

namespace Nightfall

variable {P : Primitives}

namespace Chain

variable {chain next : Chain P} {block : Block} {nowUnix later : UInt64}

/-- An accepted block extends the chain. -/
theorem extend_of_applyBlock (accepted : chain.applyBlock block nowUnix = (.ok (), next)) :
    ∃ ledger undo, next = chain.extend (chain.storedForm block) ledger undo := by
  simp only [applyBlock, applyBlockInner] at accepted
  generalize chain.storedForm block = stored at accepted ⊢
  split at accepted
  · simp at accepted
  · split at accepted
    · simp at accepted
    · next undo _ =>
        split at accepted
        · simp at accepted
        · next ledger _ =>
            split at accepted
            · simp at accepted
            · split at accepted
              · simp at accepted
              · exact ⟨ledger, undo, (congrArg Prod.snd accepted).symm⟩

theorem checkBlock_of_applyBlock (accepted : chain.applyBlock block nowUnix = (.ok (), next)) :
    chain.checkBlock (chain.storedForm block) nowUnix true = .ok () := by
  simp only [applyBlock, applyBlockInner] at accepted
  split at accepted
  · simp at accepted
  · assumption

theorem checkBlock_later {verifyPow : Bool}
    (passed : chain.checkBlock block nowUnix verifyPow = .ok ()) (after : nowUnix ≤ later) :
    chain.checkBlock block later verifyPow = .ok () := by
  rw [checkBlock_eq_ok] at passed ⊢
  obtain ⟨version, outputs, size, height, prevHash, pin, future, rest⟩ := passed
  refine ⟨version, outputs, size, height, prevHash, pin, fun pow => ?_, rest⟩
  have early := future pow
  rw [UInt64.le_iff_toNat_le, Machine.toNat_saturatingAdd] at early ⊢
  rw [UInt64.le_iff_toNat_le] at after
  omega

/-- What is accepted is accepted at any later time, with the same result. -/
theorem applyBlock_later (accepted : chain.applyBlock block nowUnix = (.ok (), next))
    (after : nowUnix ≤ later) : chain.applyBlock block later = (.ok (), next) := by
  have passed := checkBlock_of_applyBlock accepted
  simp only [applyBlock, applyBlockInner, passed] at accepted
  simp only [applyBlock, applyBlockInner, checkBlock_later passed after]
  exact accepted

theorem applyAll_later {last : Chain P} {blocks : List Block}
    (accepted : applyAll nowUnix chain blocks = .ok last) (after : nowUnix ≤ later) :
    applyAll later chain blocks = .ok last := by
  induction blocks generalizing chain with
  | nil => exact accepted
  | cons block rest ih =>
      simp only [applyAll, Guard.bind_eq_ok, Guard.toExcept_eq_ok] at accepted ⊢
      obtain ⟨next, applied, others⟩ := accepted
      exact ⟨next, applyBlock_later applied after, ih others⟩

/-- A block at another height than the next is refused, and leaves the chain as it was. -/
theorem applyBlock_of_height_ne (elsewhere : block.header.height ≠ chain.nextHeight)
    (nowUnix : UInt64) :
    ∃ error, chain.applyBlock block nowUnix = (.error error, chain) := by
  have stored : (chain.storedForm block).header = block.header := by
    unfold storedForm
    split <;> rfl
  cases checked : chain.checkBlock (chain.storedForm block) nowUnix true with
  | ok passed =>
      have height := (checkBlock_eq_ok.mp checked).2.2.2.1
      exact absurd (stored ▸ height) elsewhere
  | error error =>
      refine ⟨error, ?_⟩
      simp only [applyBlock, applyBlockInner, checked]

end Chain

end Nightfall
