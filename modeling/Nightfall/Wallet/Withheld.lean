import Nightfall.Wallet.AirSigning

/-!
# Withheld payments

`resendable` lists the payments that a wallet may put on the wire again on its own.  A
payment that is withheld, or was confirmed once, is never on that list again.
-/

namespace Nightfall

variable {P : Primitives}

namespace WalletFile

/-- Unconfirmed sends this wallet can put back on the wire. -/
def resendable (db : WalletFile) : List (Text × Transaction) :=
  db.history.filterMap fun entry =>
    if !entry.quarantined && entry.isPendingSend then
      entry.raw.map fun tx => (entry.txid, tx)
    else none

theorem mem_resendable {db : WalletFile} {txid : Text} {tx : Transaction} :
    (txid, tx) ∈ db.resendable ↔ ∃ entry ∈ db.history, entry.quarantined = false ∧
      entry.isPendingSend = true ∧ entry.raw = some tx ∧ entry.txid = txid := by
  simp only [resendable, List.mem_filterMap]
  apply exists_congr
  intro entry
  apply and_congr_right
  intro _
  cases withheld : entry.quarantined with
  | true => simp
  | false =>
      cases pending : entry.isPendingSend with
      | true => simp [and_comm]
      | false => simp

end WalletFile

/-! ## Sends that are never put on the wire again -/

namespace WalletFile

/-- The list has a send with this id, and every such send is withheld or confirmed. -/
def Held (txid : Text) (history : List HistoryEntry) : Prop :=
  (∃ entry ∈ history, entry.direction = .sent ∧ entry.txid = txid) ∧
    ∀ entry ∈ history, entry.direction = .sent → entry.txid = txid →
      entry.quarantined = true ∨ entry.height ≠ none

/-- Two sends with one id are both withheld. -/
def ApartFrom (first second : HistoryEntry) : Prop :=
  first.direction = .sent → second.direction = .sent → first.txid = second.txid →
    first.quarantined = true ∧ second.quarantined = true

instance ApartFrom.symmetric : Std.Symm ApartFrom where
  symm _ _ both sent sent' same := (both sent' sent same.symm).symm

def Apart (history : List HistoryEntry) : Prop :=
  history.Pairwise ApartFrom

/-- The id of a send is that of its transaction. -/
def Labelled (P : Primitives) (history : List HistoryEntry) : Prop :=
  ∀ entry ∈ history, entry.direction = .sent → ∀ tx ∈ entry.raw,
    entry.txid = (tx.txid P).toHex

theorem not_resendable_of_held {db : WalletFile} {txid : Text} (held : Held txid db.history)
    (tx : Transaction) : (txid, tx) ∉ db.resendable := by
  intro member
  obtain ⟨entry, listed, free, pending, _, same⟩ := mem_resendable.mp member
  simp only [HistoryEntry.isPendingSend, HistoryEntry.isPending, Bool.and_eq_true, beq_iff_eq,
    Option.isNone_iff_eq_none] at pending
  rcases held.2 entry listed pending.1 same with withheld | confirmed
  · rw [withheld] at free
    cases free
  · exact confirmed pending.2.1

theorem lasting_held (txid : Text) : Lasting P (Held txid) where
  perm same held := by
    obtain ⟨⟨entry, member, listed⟩, every⟩ := held
    exact ⟨⟨entry, same.mem_iff.mp member, listed⟩,
      fun other member => every other (same.mem_iff.mpr member)⟩
  filter keeps held := by
    obtain ⟨⟨entry, member, listed⟩, every⟩ := held
    exact ⟨⟨entry, List.mem_filter.mpr ⟨member, keeps entry listed.1⟩, listed⟩,
      fun other member => every other (List.mem_of_mem_filter member)⟩
  later changed held := by
    obtain ⟨⟨entry, member, sent, same⟩, every⟩ := held
    constructor
    · obtain ⟨after, member, later⟩ := (exists_later changed).1 entry member
      exact ⟨after, member, later.direction.trans sent, later.txid.trans same⟩
    · intro after member sent same
      obtain ⟨before, member, later⟩ := (exists_later changed).2 after member
      rcases every before member (later.direction ▸ sent) (later.txid ▸ same) with marked | confirmed
      · exact .inl (later.withheld marked)
      · by_cases waits : after.height = none
        · exact .inl ((later.waiting waits).resolve_left confirmed).2
        · exact .inr waits
  discover incoming _ held := by
    obtain ⟨⟨entry, member, listed⟩, every⟩ := held
    refine ⟨⟨entry, List.mem_append_left _ member, listed⟩, fun other member sent => ?_⟩
    cases List.mem_append.mp member with
    | inl before => exact every other before sent
    | inr last =>
        cases List.mem_singleton.mp last
        exact absurd sent incoming
  record _ _ _ _ fresh held := by
    obtain ⟨⟨entry, member, listed⟩, every⟩ := held
    refine ⟨⟨entry, List.mem_cons_of_mem _ member, listed⟩, fun other isMember sent same => ?_⟩
    cases List.mem_cons.mp isMember with
    | inl here =>
        subst here
        exact absurd (listed.2.trans same.symm) (fresh entry member)
    | inr before => exact every other before sent same

theorem lasting_apart : Lasting P Apart where
  perm same apart := (same.pairwise_iff fun both => Std.Symm.symm _ _ both).mp apart
  filter _ apart := apart.sublist List.filter_sublist
  later changed apart := by
    induction changed with
    | nil => exact .nil
    | cons first rest ih =>
        obtain ⟨others, later⟩ := List.pairwise_cons.mp apart
        refine List.pairwise_cons.mpr ⟨?_, ih later⟩
        intro after member sent sent' same
        obtain ⟨before, member, second⟩ := (exists_later rest).2 after member
        have both := others before member (first.direction ▸ sent) (second.direction ▸ sent')
          (by rw [← first.txid, ← second.txid, same])
        exact ⟨first.withheld both.1, second.withheld both.2⟩
  discover incoming _ apart := by
    refine List.pairwise_append.mpr ⟨apart, List.pairwise_singleton _ _, ?_⟩
    intro other _ last member _ sent
    cases List.mem_singleton.mp member
    exact absurd sent incoming
  record _ _ _ _ fresh apart := by
    refine List.pairwise_cons.mpr ⟨?_, apart⟩
    intro other member _ _ same
    exact absurd same.symm (fresh other member)

theorem lasting_labelled : Lasting P (Labelled P) where
  perm same labelled entry member := labelled entry (same.mem_iff.mpr member)
  filter _ labelled entry member := labelled entry (List.mem_of_mem_filter member)
  later changed labelled := by
    intro after member sent tx isRaw
    obtain ⟨before, member, later⟩ := (exists_later changed).2 after member
    rw [later.txid]
    exact labelled before member (later.direction ▸ sent) tx (later.raw ▸ isRaw)
  discover incoming _ labelled entry member sent := by
    cases List.mem_append.mp member with
    | inl before => exact labelled entry before sent
    | inr last =>
        cases List.mem_singleton.mp last
        exact absurd sent incoming
  record _ raw same _ _ labelled entry member := by
    cases List.mem_cons.mp member with
    | inl here =>
        subst here
        intro _ tx isRaw
        rw [raw] at isRaw
        cases isRaw
        exact same
    | inr before => exact labelled entry before

end WalletFile

namespace AirWallet

variable {S : Sealing} {C : TransferCrypto P} {air : AirWallet P}

/-- Operations that withhold every send of a wallet. -/
inductive Withholds (air : AirWallet P) : WalletOp P → Prop where
  | imported : Withholds air .quarantineImportedSends
  | rescan (accepted : air.wallet.beginLightRescan.1 = .ok ()) :
      Withholds air .beginLightRescan

/-- After such an operation, the sends are there as before, and all of them are withheld. -/
theorem Withholds.step_spec {op : WalletOp P} (withholds : air.Withholds op) :
    (∀ entry ∈ (air.wallet.step S C op).db.history, entry.direction = .sent →
      entry.quarantined = true) ∧
    ∀ entry ∈ air.wallet.db.history, entry.direction = .sent →
      ∃ after ∈ (air.wallet.step S C op).db.history, after.direction = .sent ∧
        after.txid = entry.txid := by
  cases withholds with
  | imported =>
      simp only [Wallet.step, Wallet.quarantineImportedSends, Wallet.editIfChanged_db,
        WalletFile.quarantineImportedSends]
      constructor
      · intro entry member sent
        obtain ⟨before, _, rfl⟩ := List.mem_map.mp member
        split at sent
        · rw [if_pos ‹_›]
        · contradiction
      · intro entry member sent
        refine ⟨_, List.mem_map_of_mem member, ?_⟩
        rw [if_pos sent]
        exact ⟨sent, rfl⟩
  | rescan accepted =>
      have begun : (air.wallet.step S C .beginLightRescan).db.history =
          (air.wallet.db.history.filter fun entry => entry.direction == .sent).map
            fun entry => { entry with height := none, quarantined := true } := by
        unfold Wallet.beginLightRescan at accepted
        split at accepted
        · cases accepted
        · split at accepted
          · cases accepted
          · next memory resolved =>
              simp only [Wallet.step, Wallet.beginLightRescan, if_neg memory, if_neg resolved]
      rw [begun]
      constructor
      · intro entry member _
        obtain ⟨before, _, rfl⟩ := List.mem_map.mp member
        rfl
      · intro entry member sent
        exact ⟨_, List.mem_map_of_mem (List.mem_filter.mpr ⟨member, by simpa using sent⟩), sent,
          rfl⟩

/-- A withheld payment is never put on the wire again, neither under its id nor, where ids
are those of the transactions, under any other; and neither is a payment that was confirmed
once, on whatever branch. -/
theorem withheld_never_resent {op : WalletOp P} (withholds : air.Withholds op)
    {ops : List (AirOp P)} (keeps : ∀ op ∈ ops, op ≠ .resetScan) :
    (∀ entry ∈ air.wallet.db.history, entry.direction = .sent → ∀ tx,
      (entry.txid, tx) ∉
        (GuardedRun.run (step S C) air (.onWallet op :: ops)).wallet.db.resendable) ∧
    (WalletFile.Labelled P air.wallet.db.history →
      ∀ entry ∈ air.wallet.db.history, entry.direction = .sent → ∀ tx ∈ entry.raw, ∀ txid,
        (txid, tx) ∉
          (GuardedRun.run (step S C) air (.onWallet op :: ops)).wallet.db.resendable) ∧
    ∀ before later, ops = before ++ later →
      ∀ entry ∈ (GuardedRun.run (step S C) air (.onWallet op :: before)).wallet.db.history,
        entry.direction = .sent → entry.height ≠ none → ∀ tx,
          (entry.txid, tx) ∉
            (GuardedRun.run (step S C) air (.onWallet op :: ops)).wallet.db.resendable := by
  obtain ⟨marked, carried⟩ := withholds.step_spec (S := S) (C := C)
  have first : ∀ entry ∈ air.wallet.db.history, entry.direction = .sent → ∀ tx,
      (entry.txid, tx) ∉
        (GuardedRun.run (step S C) air (.onWallet op :: ops)).wallet.db.resendable := by
    intro entry member sent
    obtain ⟨after, member, sent, same⟩ := carried entry member sent
    apply WalletFile.not_resendable_of_held
    rw [GuardedRun.run_cons]
    apply lasting_run (WalletFile.lasting_held _) (along_keeps keeps)
    exact ⟨⟨after, member, sent, same⟩, fun other member sent _ => .inl (marked other member sent)⟩
  refine ⟨first, ?_, ?_⟩
  · intro labelled entry member sent tx isRaw txid resent
    have later : WalletFile.Labelled P
        (GuardedRun.run (step S C) air (.onWallet op :: ops)).wallet.db.history := by
      rw [GuardedRun.run_cons]
      exact lasting_run WalletFile.lasting_labelled (along_keeps keeps)
        (Wallet.lasting_step WalletFile.lasting_labelled labelled op)
    obtain ⟨other, listed, free, pending, raw, rfl⟩ := WalletFile.mem_resendable.mp resent
    have alsoSent : other.direction = .sent := by
      simp only [HistoryEntry.isPendingSend, Bool.and_eq_true, beq_iff_eq] at pending
      exact pending.1
    -- Both carry the transaction, so both have its id.
    have same : other.txid = entry.txid :=
      (later other listed alsoSent tx raw).trans (labelled entry member sent tx isRaw).symm
    rw [same] at resent
    exact first entry member sent tx resent
  · rintro before later rfl entry member sent confirmed tx
    have apart : WalletFile.Apart
        (GuardedRun.run (step S C) air (.onWallet op :: before)).wallet.db.history := by
      rw [GuardedRun.run_cons]
      apply lasting_run WalletFile.lasting_apart
        (along_keeps fun op member => keeps op (List.mem_append_left _ member))
      exact List.pairwise_of_forall_mem_list fun first isFirst second isSecond sent sent' _ =>
        ⟨marked first isFirst sent, marked second isSecond sent'⟩
    apply WalletFile.not_resendable_of_held
    rw [← List.cons_append, GuardedRun.run_append]
    apply lasting_run (WalletFile.lasting_held _)
      (along_keeps fun op member => keeps op (List.mem_append_right _ member))
    refine ⟨⟨entry, member, sent, rfl⟩, fun other isOther sent' same => ?_⟩
    by_cases identical : other = entry
    · rw [identical]
      exact .inr confirmed
    · left
      exact (apart.forall isOther member identical sent' sent same).1

end AirWallet

namespace Sample

def pendingTx : Transaction where
  version := 2
  inputs := [inputOf zeroValued]
  outputs := []
  kernels := []
  stealthOffset := none
  kernelOffset := none

def pendingSend : HistoryEntry where
  direction := .sent
  amount := 0
  fee := 0
  memo := []
  height := none
  txid := (pendingTx.txid primitives).toHex
  timestamp := 0
  spentCommits := [zeroValued]
  raw := some pendingTx
  quarantined := false
  failed := false

/-- A wallet with a pending send and a reservation of another coin. -/
def reservedAir : AirWallet primitives where
  wallet := { wallet with
    db := { wallet.db with history := [pendingSend], reserved := [ascii "00"] } }
  airSigned := ∅

theorem imported_never_resent :
    (pendingSend.txid, pendingTx) ∉ (GuardedRun.run (AirWallet.step sealing crypto) reservedAir
      [.onWallet .quarantineImportedSends, .onWallet .exportImport]).wallet.db.resendable :=
  (@AirWallet.withheld_never_resent _ sealing crypto reservedAir _ .imported
    [.onWallet .exportImport] (by simp)).1 pendingSend List.mem_cons_self rfl pendingTx

/-- A rescan that the reservation forbids withholds nothing. -/
theorem refused_rescan_resends :
    pendingSend ∈ reservedAir.wallet.db.history ∧ pendingSend.direction = .sent ∧
      (pendingSend.txid, pendingTx) ∈ (GuardedRun.run (AirWallet.step sealing crypto) reservedAir
        [.onWallet .beginLightRescan]).wallet.db.resendable := by
  refine ⟨List.mem_cons_self, rfl, ?_⟩
  rw [WalletFile.mem_resendable]
  exact ⟨pendingSend, List.mem_cons_self, rfl, rfl, rfl, rfl⟩

end Sample

end Nightfall
