import Nightfall.Library.LargestFirst
import Nightfall.Wallet.Payment

/-!
# The selection of coins is optimal

`selectCoinsAt` takes the largest coins first.  What it returns reaches the target with as
few coins as possible, and it fails only where no choice within the bound reaches it.
-/

namespace Nightfall

variable {P : Primitives}

namespace WalletFile

/-- What these outputs are worth. -/
def worth (outputs : List OwnedOutput) : Nat :=
  LargestFirst.total (fun output => output.value.toNat) outputs

/-- The outputs that a payment may spend. -/
def eligible (db : WalletFile) (tipHeight maturity : UInt64) : List OwnedOutput :=
  db.outputs.filter (db.isSelectable tipHeight maturity)

variable {keys : WalletKeys P} {db : WalletFile} {target tipHeight maturity : UInt64}

theorem mem_eligible {output : OwnedOutput} :
    output ∈ db.eligible tipHeight maturity ↔
      output ∈ db.outputs ∧ output.spent = false ∧ output.commit ∉ db.pendingInputCommits ∧
        output.commit.toHex ∉ db.reserved ∧
          (maturity = 0 ∨ output.matureAt tipHeight maturity = true) := by
  simp [eligible, isSelectable, isReserved, and_assoc]

theorem availableCoins_perm :
    (db.availableCoins tipHeight maturity).Perm (db.eligible tipHeight maturity) :=
  List.perm_insertionSort _ _

theorem availableCoins_descending :
    LargestFirst.Descending (fun output : OwnedOutput => output.value.toNat)
      (db.availableCoins tipHeight maturity) := by
  have total : Std.Total fun left right : OwnedOutput => right.value ≤ left.value :=
    ⟨fun left right => UInt64.le_total _ _⟩
  have transitive : IsTrans OwnedOutput fun left right => right.value ≤ left.value :=
    ⟨fun _ _ _ first second => UInt64.le_trans second first⟩
  exact (List.pairwise_insertionSort _ _).imp fun le => UInt64.le_iff_toNat_le.mp le

/-! ## What the loop chooses -/

/-- A saturating total, as a number. -/
theorem toNat_saturatingAdd_of_worth {total : UInt64} {start : Nat} (output : OwnedOutput)
    (capped : total.toNat = min start (2 ^ 64 - 1)) :
    (Machine.saturatingAdd total output.value).toNat =
      min (start + output.value.toNat) (2 ^ 64 - 1) := by
  rw [Machine.toNat_saturatingAdd, capped]
  omega

/-- The loop takes the shortest front of the list that reaches the target, or all of it. -/
theorem chooseCoins_spec {outputs : List OwnedOutput} {total reached : UInt64} {start : Nat}
    {coins : List (Spendable P)} (capped : total.toNat = min start (2 ^ 64 - 1))
    (chosen : chooseCoins keys target total outputs = .ok (coins, reached)) :
    ∃ count ≤ outputs.length,
      (outputs.take count).map (OwnedOutput.toSpendable keys) = coins.map .ok ∧
        reached.toNat = min (start + worth (outputs.take count)) (2 ^ 64 - 1) ∧
          (∀ fewer < count, start + worth (outputs.take fewer) < target.toNat) ∧
            (count < outputs.length → target ≤ reached) := by
  induction outputs generalizing total start coins with
  | nil =>
      cases chosen
      exact ⟨0, le_rfl, rfl, by simpa [worth] using capped, by simp, by simp⟩
  | cons first rest ih =>
      unfold chooseCoins at chosen
      split at chosen
      · next enough =>
          cases chosen
          exact ⟨0, Nat.zero_le _, rfl, by simpa [worth] using capped, by simp, fun _ => enough⟩
      · next missing =>
          simp only [Guard.bind_eq_ok, Except.ok.injEq] at chosen
          obtain ⟨coin, spendable, ⟨others, last⟩, later, same⟩ := chosen
          cases same
          obtain ⟨count, within, coinsOf, sum, short, stops⟩ :=
            ih (toNat_saturatingAdd_of_worth first capped) later
          have below : start < target.toNat := by
            have := target.toNat_lt
            rw [ge_iff_le, UInt64.le_iff_toNat_le, capped] at missing
            omega
          refine ⟨count + 1, Nat.succ_le_succ within, ?_, ?_, ?_, ?_⟩
          · rw [List.take_succ_cons, List.map_cons, List.map_cons, spendable, coinsOf]
          · rw [sum, List.take_succ_cons, worth, worth, LargestFirst.total_cons, Nat.add_assoc]
          · intro fewer smaller
            cases fewer with
            | zero => simpa [worth] using below
            | succ fewer =>
                have later := short fewer (Nat.lt_of_succ_lt_succ smaller)
                rw [List.take_succ_cons, worth, LargestFirst.total_cons, ← Nat.add_assoc]
                exact later
          · intro more
            exact stops (Nat.lt_of_succ_lt_succ more)

/-- The loop fails only at a coin that cannot be spent. -/
theorem chooseCoins_isOk {outputs : List OwnedOutput} (total : UInt64)
    (decodes : ∀ output ∈ outputs, (output.toSpendable keys).isOk = true) :
    ∃ result, chooseCoins keys target total outputs = .ok result := by
  induction outputs generalizing total with
  | nil => exact ⟨_, rfl⟩
  | cons first rest ih =>
      unfold chooseCoins
      split
      · exact ⟨_, rfl⟩
      · obtain ⟨⟨others, last⟩, later⟩ := ih (Machine.saturatingAdd total first.value)
          fun output member => decodes output (List.mem_cons_of_mem _ member)
        have here := decodes first List.mem_cons_self
        cases spendable : first.toSpendable keys with
        | error error =>
            rw [spendable] at here
            exact absurd here Bool.false_ne_true
        | ok coin => exact ⟨(coin :: others, last), by rw [later]; rfl⟩

/-- A front of the list reaches the target. -/
theorem selectCoinsAt_spec {coins : List (Spendable P)}
    (selected : db.selectCoinsAt keys target tipHeight maturity = .ok coins) :
    ∃ count ≤ maxInputs,
      ((db.availableCoins tipHeight maturity).take count).map (OwnedOutput.toSpendable keys) =
          coins.map .ok ∧
        target.toNat ≤ worth ((db.availableCoins tipHeight maturity).take count) ∧
          ∀ fewer < count,
            worth ((db.availableCoins tipHeight maturity).take fewer) < target.toNat := by
  simp only [selectCoinsAt, Guard.bind_eq_ok, Guard.refuse_eq_ok, Except.ok.injEq] at selected
  obtain ⟨⟨chosen, reached⟩, choice, _, _, _, enough, rfl⟩ := selected
  obtain ⟨count, within, coinsOf, sum, short, _⟩ := @chooseCoins_spec _ _ _ _ _ _ 0 _ rfl choice
  have bounded : count ≤ maxInputs := within.trans (List.length_take_le _ _)
  have front (fewer : Nat) (le : fewer ≤ count) :
      ((db.availableCoins tipHeight maturity).take maxInputs).take fewer =
        (db.availableCoins tipHeight maturity).take fewer := by
    rw [List.take_take, min_eq_left (le.trans bounded)]
  refine ⟨count, bounded, ?_, ?_, ?_⟩
  · rw [← front count le_rfl, coinsOf]
  · rw [UInt64.not_lt, UInt64.le_iff_toNat_le, sum, front count le_rfl] at enough
    omega
  · intro fewer smaller
    have below := short fewer smaller
    rwa [front fewer smaller.le, Nat.zero_add] at below

/-- Where the coins can be spent, a choice within the bound that reaches the target makes
the selection succeed. -/
theorem selectCoinsAt_isOk
    (decodes : ∀ output ∈ db.eligible tipHeight maturity, (output.toSpendable keys).isOk = true)
    {choice : List OwnedOutput} (within : choice.Subperm (db.eligible tipHeight maturity))
    (small : choice.length ≤ maxInputs) (reaches : target.toNat ≤ worth choice) :
    ∃ coins, db.selectCoinsAt keys target tipHeight maturity = .ok coins := by
  have available := @availableCoins_perm db tipHeight maturity
  have front : ∀ output ∈ (db.availableCoins tipHeight maturity).take maxInputs,
      (output.toSpendable keys).isOk = true := fun output member =>
    decodes output (available.mem_iff.mp (List.mem_of_mem_take member))
  have largest : target.toNat ≤ worth ((db.availableCoins tipHeight maturity).take maxInputs) :=
    LargestFirst.reaches_take availableCoins_descending
      (within.trans available.symm.subperm) small reaches
  obtain ⟨⟨chosen, reached⟩, loop⟩ := @chooseCoins_isOk _ keys target _ 0 front
  obtain ⟨count, bounded, _, sum, _, stops⟩ := @chooseCoins_spec _ _ _ _ _ _ 0 _ rfl loop
  have enough : target ≤ reached := by
    cases Nat.lt_or_eq_of_le bounded with
    | inl fewer => exact stops fewer
    | inr all =>
        have fits := target.toNat_lt
        rw [all, List.take_length, Nat.zero_add] at sum
        rw [UInt64.le_iff_toNat_le, sum]
        omega
  refine ⟨chosen, ?_⟩
  simp only [selectCoinsAt, Guard.bind_eq_ok, Guard.refuse_eq_ok, Except.ok.injEq]
  exact ⟨(chosen, reached), loop, (), fun many => absurd many.1 (UInt64.not_lt.mpr enough), (),
    UInt64.not_lt.mpr enough, rfl⟩

/-- What the selection returns is eligible, reaches the target within the bound and with as
few coins as possible, and it fails exactly where no choice of eligible outputs does. -/
theorem coins_optimal (keys : WalletKeys P) (db : WalletFile)
    (target tipHeight maturity : UInt64) :
    (∀ coins, db.selectCoinsAt keys target tipHeight maturity = .ok coins →
      ∃ chosen : List OwnedOutput,
        chosen.map (OwnedOutput.toSpendable keys) = coins.map .ok ∧
          chosen.Subperm db.outputs ∧
          (db.known.Nodup → (chosen.map OwnedOutput.commit).Nodup) ∧
          (∀ output ∈ chosen, output.spent = false ∧
            output.commit ∉ db.pendingInputCommits ∧ output.commit.toHex ∉ db.reserved ∧
            (maturity = 0 ∨ output.matureAt tipHeight maturity = true)) ∧
          target.toNat ≤ worth chosen ∧ chosen.length ≤ maxInputs ∧
          ∀ other : List OwnedOutput, other.Subperm (db.eligible tipHeight maturity) →
            target.toNat ≤ worth other → chosen.length ≤ other.length) ∧
      ((∀ output ∈ db.eligible tipHeight maturity, (output.toSpendable keys).isOk = true) →
        ((∃ error, db.selectCoinsAt keys target tipHeight maturity = .error error) ↔
          ¬∃ choice : List OwnedOutput, choice.Subperm (db.eligible tipHeight maturity) ∧
            choice.length ≤ maxInputs ∧ target.toNat ≤ worth choice)) := by
  have available := @availableCoins_perm db tipHeight maturity
  have front (count : Nat) : ((db.availableCoins tipHeight maturity).take count).Subperm
      (db.eligible tipHeight maturity) :=
    (List.take_sublist _ _).subperm.trans available.subperm
  constructor
  · intro coins selected
    obtain ⟨count, bounded, coinsOf, reaches, short⟩ := selectCoinsAt_spec selected
    have length := List.length_take_le count (db.availableCoins tipHeight maturity)
    have entries := (front count).trans List.filter_sublist.subperm
    refine ⟨_, coinsOf, entries, fun once => ?_, ?_, reaches, length.trans bounded, ?_⟩
    · obtain ⟨arranged, perm, sublist⟩ := entries
      exact (perm.map OwnedOutput.commit).nodup_iff.mp (once.sublist (sublist.map _))
    · intro output member
      exact (mem_eligible.mp ((front count).subset member)).2
    · intro other within enough
      exact length.trans (LargestFirst.length_le_of_reaches availableCoins_descending
        (within.trans available.symm.subperm) enough short)
  · intro decodes
    constructor
    · rintro ⟨error, failed⟩ ⟨choice, within, small, reaches⟩
      obtain ⟨coins, selected⟩ := selectCoinsAt_isOk decodes within small reaches
      rw [selected] at failed
      cases failed
    · intro hopeless
      cases selected : db.selectCoinsAt keys target tipHeight maturity with
      | error error => exact ⟨error, rfl⟩
      | ok coins =>
          obtain ⟨count, bounded, _, reaches, _⟩ := selectCoinsAt_spec selected
          exact absurd ⟨_, front count, (List.length_take_le _ _).trans bounded, reaches⟩ hopeless

end WalletFile

end Nightfall
