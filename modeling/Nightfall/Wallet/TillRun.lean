import Nightfall.Wallet.InvoicePaid
import Nightfall.Wallet.Settlement

/-!
# Runs of a till

No payment settles two invoices: a till never holds two invoices with one reference, so the
payments are split among its invoices, and what the invoices received adds up to no more
than what came in.
-/

/-- Shares that exclude each other are no more than the whole. -/
theorem List.sum_filter_le {α : Type*} (weight : α → Nat) {shares : List (α → Bool)}
    (apart : shares.Pairwise fun left right => ∀ item, left item = true → right item = false)
    (items : List α) :
    (shares.map fun share => ((items.filter share).map weight).sum).sum ≤
      (items.map weight).sum := by
  induction shares generalizing items with
  | nil => simp
  | cons share rest ih =>
      rw [List.pairwise_cons] at apart
      -- The other shares are taken from what this one leaves.
      have others : (rest.map fun other => ((items.filter other).map weight).sum) =
          rest.map fun other => (((items.filter fun item => !share item).filter other).map
            weight).sum := by
        apply List.map_congr_left
        intro other member
        rw [List.filter_filter]
        congr 2
        apply List.filter_congr
        intro item _
        cases taken : share item with
        | true => simp [apart.1 other member item taken]
        | false => simp
      have split := ((List.filter_append_perm share items).map weight).sum_eq
      rw [List.map_append, List.sum_append] at split
      rw [List.map_cons, List.sum_cons, others, ← split]
      exact Nat.add_le_add_left (ih apart.2 _) _

namespace Nightfall

variable {P : Primitives}

/-- An operation on a till. -/
inductive TillOp (P : Primitives) where
  | addInvoice (invoice : Invoice)
  | closeInvoice (reference note : Text)
  | removeInvoice (reference : Text)
  | onWallet (op : WalletOp P)
  /-- Whether the next save succeeds. -/
  | storage (storage : Storage)

namespace Till

/-- The till that an operation leaves behind. -/
def step (S : Sealing) (C : TransferCrypto P) (till : Till P) : TillOp P → Till P
  | .addInvoice invoice => (till.addInvoice invoice).2
  | .closeInvoice reference note => (till.closeInvoice reference note).2
  | .removeInvoice reference => (till.removeInvoice reference).2
  | .onWallet op => { till with wallet := till.wallet.step S C op }
  | .storage storage => { till with wallet := { till.wallet with storage := storage } }

/-- Every reference is trimmed, and no two invoices share one. -/
structure Distinct (till : Till P) : Prop where
  references : (till.invoices.map Invoice.reference).Nodup
  trimmed : ∀ invoice ∈ till.invoices, Utf8.trim invoice.reference = invoice.reference

variable {S : Sealing} {C : TransferCrypto P} {till : Till P}

theorem Distinct.addInvoice (distinct : till.Distinct) (invoice : Invoice) :
    (till.addInvoice invoice).2.Distinct := by
  unfold Till.addInvoice
  split
  · exact distinct
  · next accepted =>
      have fresh : ∀ other ∈ till.invoices, other.reference ≠ invoice.stored.reference := by
        simp only [accepts, Guard.bind_eq_ok, Guard.refuse_eq_ok] at accepted
        obtain ⟨_, _, _, unused, _⟩ := accepted
        intro other member same
        exact unused ⟨other, member, same⟩
      constructor
      · rw [List.map_append, List.map_singleton]
        apply distinct.references.append (List.nodup_singleton _)
        rw [List.disjoint_singleton, List.mem_map]
        intro ⟨other, member, same⟩
        exact fresh other member same
      · intro other member
        cases List.mem_append.mp member with
        | inl before => exact distinct.trimmed other before
        | inr last =>
            cases List.mem_singleton.mp last
            exact Utf8.trim_trim _

theorem Distinct.closeInvoice (distinct : till.Distinct) (reference note : Text) :
    (till.closeInvoice reference note).2.Distinct := by
  unfold Till.closeInvoice
  simp only
  split
  · exact distinct
  · split
    · exact distinct
    · next index _ =>
        have same : (till.invoices.modify index fun invoice =>
            { invoice with closedNote := some (Utf8.trim note) }).map Invoice.reference =
            till.invoices.map Invoice.reference := by
          apply List.ext_getElem?
          intro position
          rw [List.getElem?_map, List.getElem?_map, List.getElem?_modify]
          cases till.invoices[position]? with
          | none => rfl
          | some invoice => by_cases here : index = position <;> simp [here]
        constructor
        · rw [same]
          exact distinct.references
        · intro invoice member
          have kept := List.mem_map_of_mem (f := Invoice.reference) member
          rw [same, List.mem_map] at kept
          obtain ⟨before, member, sameReference⟩ := kept
          rw [← sameReference, distinct.trimmed before member]

theorem Distinct.removeInvoice (distinct : till.Distinct) (reference : Text) :
    (till.removeInvoice reference).2.Distinct := by
  have kept : ({ till with invoices := till.invoices.filter fun invoice =>
      invoice.reference ≠ Utf8.trim reference } : Till P).Distinct :=
    ⟨distinct.references.sublist (List.filter_sublist.map _),
      fun invoice member => distinct.trimmed invoice (List.mem_of_mem_filter member)⟩
  unfold Till.removeInvoice
  simp only
  split <;> exact kept

theorem Distinct.step (distinct : till.Distinct) (op : TillOp P) :
    (till.step S C op).Distinct := by
  cases op with
  | addInvoice invoice => exact distinct.addInvoice invoice
  | closeInvoice reference note => exact distinct.closeInvoice reference note
  | removeInvoice reference => exact distinct.removeInvoice reference
  | onWallet op => exact ⟨distinct.references, distinct.trimmed⟩
  | storage storage => exact ⟨distinct.references, distinct.trimmed⟩

/-- No operation gives two invoices of a till one reference. -/
theorem distinct_run (empty : till.invoices = []) (ops : List (TillOp P)) :
    (GuardedRun.run (step S C) till ops).Distinct := by
  have along : GuardedRun.Along (step S C) (fun _ _ => True) till ops :=
    GuardedRun.Along.of_forall_mem till fun _ _ => trivial
  apply along.invariant
  · exact ⟨by simp [empty], by simp [empty]⟩
  · intro till op distinct _
    exact distinct.step op

namespace Distinct

variable {nowUnix : UInt64}

theorem apart (distinct : till.Distinct) : till.invoices.Pairwise fun left right =>
    ∀ payment, left.quotedBy payment = true → right.quotedBy payment = false := by
  have references := List.pairwise_map.mp distinct.references
  refine references.imp_of_mem ?_
  intro left right isLeft isRight different payment quotesLeft
  simp only [Invoice.quotedBy, decide_eq_true_eq, decide_eq_false_iff_not] at quotesLeft ⊢
  rw [distinct.trimmed left isLeft] at quotesLeft
  rw [distinct.trimmed right isRight, quotesLeft]
  exact different

/-- What the invoices received, without a cap, is no more than what came in. -/
theorem sum_total_le (distinct : till.Distinct) (payments : List Incoming) :
    (till.invoices.map fun invoice =>
      Incoming.total (payments.filter invoice.quotedBy)).sum ≤ Incoming.total payments := by
  have shares := List.sum_filter_le (fun payment : Incoming => payment.amountDarks.toNat)
    (List.pairwise_map.mpr distinct.apart) payments
  rwa [List.map_map] at shares

end Distinct

theorem sum_receivedDarks_le (distinct : till.Distinct) (nowUnix : UInt64) :
    ((till.standings nowUnix).map fun entry => entry.2.receivedDarks.toNat).sum ≤
      Incoming.total till.incoming := by
  refine le_trans ?_ (distinct.sum_total_le till.incoming)
  rw [standings, List.map_map]
  apply List.sum_le_sum
  intro invoice _
  rw [Function.comp_apply, Invoice.toNat_receivedDarks]
  exact Nat.min_le_left _ _

/-- Takings of any kind count every invoice at most once. -/
theorem toNat_takings_le (keep : InvoiceStatus → Bool) (statuses : List InvoiceStatus) :
    (((statuses.filter keep).map InvoiceStatus.receivedDarks).foldl
      Machine.saturatingAdd 0).toNat ≤
      (statuses.map fun status => status.receivedDarks.toNat).sum := by
  rw [Machine.toNat_foldl_saturatingAdd, List.map_map]
  refine (Nat.min_le_left _ _).trans ?_
  exact (List.filter_sublist.map _).sum_le_sum fun _ _ => Nat.zero_le _

end Till

namespace Sample

end Sample

end Nightfall
