import Nightfall.Wallet.Invoice
import Nightfall.Wallet.Run

/-!
# How settled an invoice is

`settlement` measures the payments of an invoice against the chain tip, and the takings
count the invoices that are settled.  Which later payments take a confirmed invoice back,
and why no payment counts for two invoices.
-/

namespace Machine

/-- A saturating sum is the sum, capped. -/
theorem toNat_foldl_saturatingAdd (values : List UInt64) :
    (values.foldl saturatingAdd 0).toNat =
      min (values.map UInt64.toNat).sum (2 ^ 64 - 1) := by
  have shifted (start : UInt64) : (values.foldl saturatingAdd start).toNat =
      min (start.toNat + (values.map UInt64.toNat).sum) (2 ^ 64 - 1) := by
    induction values generalizing start with
    | nil =>
        have fits := start.toNat_lt
        simp only [List.foldl_nil, List.map_nil, List.sum_nil]
        omega
    | cons value rest ih =>
        rw [List.foldl_cons, ih, toNat_saturatingAdd, List.map_cons, List.sum_cons]
        omega
  simpa using shifted 0

end Machine

namespace Nightfall

/-! ## Settlement -/

namespace InvoiceState

/-- Paid in full. -/
def isPaid : InvoiceState → Bool
  | .paid _ | .overpaid _ _ => true
  | _ => false

/-- Paid, in part or in full, after the deadline. -/
def isLate : InvoiceState → Bool
  | .paid late | .underpaid _ late | .overpaid _ late => late
  | _ => false

end InvoiceState

/-- Whether a merchant should hand over the goods yet. -/
inductive Settlement where
  | notPaid
  | unconfirmed
  | confirming (depth need : UInt64)
  | confirmed
  | closedByHand
  deriving DecidableEq

/-- Confirmations of a payment at `height`. -/
def confirmations (tipHeight height : UInt64) : UInt64 :=
  tipHeight - height + 1

/-- The least confirmations of the payments, or nothing as soon as one of them is in no
block up to the tip. -/
def shallowestOf (tipHeight : UInt64) : Option UInt64 → List Incoming → Option (Option UInt64)
  | shallowest, [] => some shallowest
  | shallowest, payment :: rest =>
      match payment.height with
      | none => none
      | some height =>
          if height > tipHeight then none
          else
            let depth := confirmations tipHeight height
            shallowestOf tipHeight (some (shallowest.elim depth (min · depth))) rest

/-- How settled an invoice is, measured against the chain tip. -/
def settlement (status : InvoiceStatus) (tipHeight need : UInt64) : Settlement :=
  let need := max need 1
  match status.state with
  | .closed => .closedByHand
  | .paid _ | .overpaid _ _ =>
      match shallowestOf tipHeight none status.matched with
      | none | some none => .unconfirmed
      | some (some depth) => if depth ≥ need then .confirmed else .confirming depth need
  | _ => .notPaid

/-- What settled invoices took in. -/
def takingsDarks (statuses : List InvoiceStatus) : UInt64 :=
  ((statuses.filter fun status => status.state.isPaid).map
    InvoiceStatus.receivedDarks).foldl Machine.saturatingAdd 0

/-- What confirmed invoices took in. -/
def confirmedTakingsDarks (statuses : List InvoiceStatus) (tip need : UInt64) : UInt64 :=
  ((statuses.filter fun status => settlement status tip need == .confirmed).map
    InvoiceStatus.receivedDarks).foldl Machine.saturatingAdd 0

/-- The payment is in a block and deep enough. -/
def Incoming.DeepAt (payment : Incoming) (tipHeight need : UInt64) : Prop :=
  ∃ height, payment.height = some height ∧ height ≤ tipHeight ∧
    max need 1 ≤ confirmations tipHeight height

/-- The loop ends with the least of the depths if all payments are in blocks. -/
theorem shallowestOf_ge_iff {tipHeight need : UInt64} {matched : List Incoming}
    {shallowest : Option UInt64} :
    (∃ depth, shallowestOf tipHeight shallowest matched = some (some depth) ∧ need ≤ depth) ↔
      (shallowest ≠ none ∨ matched ≠ []) ∧ (∀ depth ∈ shallowest, need ≤ depth) ∧
        ∀ payment ∈ matched, ∃ height, payment.height = some height ∧ height ≤ tipHeight ∧
          need ≤ confirmations tipHeight height := by
  induction matched generalizing shallowest with
  | nil => cases shallowest <;> simp [shallowestOf]
  | cons payment rest ih =>
      rw [List.forall_mem_cons]
      unfold shallowestOf
      cases block : payment.height with
      | none => simp
      | some height =>
          by_cases above : height > tipHeight
          · have missing : ¬height ≤ tipHeight := UInt64.not_le.mpr above
            simp [above, missing]
          · have inside : height ≤ tipHeight := UInt64.not_lt.mp above
            simp only [if_neg above, ih]
            cases shallowest with
            | none => simp [inside]
            | some depth =>
                have least : need ≤ min depth (confirmations tipHeight height) ↔
                    need ≤ depth ∧ need ≤ confirmations tipHeight height := by
                  rw [UInt64.min_def]
                  simp only [UInt64.le_iff_toNat_le]
                  split <;> omega
                simp [inside, least, and_assoc]

/-- Confirmed means that the invoice is paid and every payment is deep enough. -/
theorem settlement_eq_confirmed {status : InvoiceStatus} {tipHeight need : UInt64} :
    settlement status tipHeight need = .confirmed ↔
      status.state.isPaid = true ∧ status.matched ≠ [] ∧
        ∀ payment ∈ status.matched, payment.DeepAt tipHeight need := by
  have deep := @shallowestOf_ge_iff tipHeight (max need 1) status.matched none
  simp only [ne_eq, not_true_eq_false, false_or, Option.not_mem_none, IsEmpty.forall_iff,
    implies_true, true_and] at deep
  simp only [Incoming.DeepAt, ← deep]
  unfold settlement
  cases status.state with
  | paid late =>
      cases shallowestOf tipHeight none status.matched with
      | none => simp [InvoiceState.isPaid]
      | some shallowest => cases shallowest <;> simp [InvoiceState.isPaid]
  | overpaid extra late =>
      cases shallowestOf tipHeight none status.matched with
      | none => simp [InvoiceState.isPaid]
      | some shallowest => cases shallowest <;> simp [InvoiceState.isPaid]
  | _ => simp [InvoiceState.isPaid]

/-! ## Later payments -/

/-- What the payments are worth together, without a cap. -/
def Incoming.total (payments : List Incoming) : Nat :=
  (payments.map fun payment => payment.amountDarks.toNat).sum

namespace Invoice

variable {invoice : Invoice} {payments more : List Incoming} {nowUnix laterUnix : UInt64}

theorem matched_status :
    (invoice.status payments nowUnix).matched = payments.filter invoice.quotedBy :=
  rfl

theorem receivedDarks_status :
    (invoice.status payments nowUnix).receivedDarks =
      ((payments.filter invoice.quotedBy).map Incoming.amountDarks).foldl
        Machine.saturatingAdd 0 :=
  rfl

theorem toNat_receivedDarks :
    (invoice.status payments nowUnix).receivedDarks.toNat =
      min (Incoming.total (payments.filter invoice.quotedBy)) (2 ^ 64 - 1) := by
  rw [receivedDarks_status, Machine.toNat_foldl_saturatingAdd, List.map_map]
  rfl

/-- Some payment that quotes the invoice came after its deadline. -/
def lateBy (invoice : Invoice) (payments : List Incoming) : Bool :=
  match invoice.expiresUnix with
  | none => false
  | some deadline => (payments.filter invoice.quotedBy).any fun payment =>
      payment.timestamp > deadline

theorem state_status :
    (invoice.status payments nowUnix).state =
      if invoice.closedNote.isSome then .closed
      else if (payments.filter invoice.quotedBy).isEmpty then
        match invoice.expiresUnix with
        | some deadline => if nowUnix > deadline then .expired else .unpaid
        | none => .unpaid
      else match invoice.amountDarks with
        | none => .paid (invoice.lateBy payments)
        | some asked =>
            if (invoice.status payments nowUnix).receivedDarks = asked then
              .paid (invoice.lateBy payments)
            else if (invoice.status payments nowUnix).receivedDarks < asked then
              .underpaid (asked - (invoice.status payments nowUnix).receivedDarks)
                (invoice.lateBy payments)
            else
              .overpaid ((invoice.status payments nowUnix).receivedDarks - asked)
                (invoice.lateBy payments) :=
  rfl

/-- An invoice is paid once the payments that quote it cover what it asks. -/
theorem isPaid_status_iff :
    (invoice.status payments nowUnix).state.isPaid = true ↔
      invoice.closedNote = none ∧ payments.filter invoice.quotedBy ≠ [] ∧
        ∀ asked ∈ invoice.amountDarks,
          asked.toNat ≤ Incoming.total (payments.filter invoice.quotedBy) := by
  have capped := @toNat_receivedDarks invoice payments nowUnix
  rw [state_status]
  generalize (invoice.status payments nowUnix).receivedDarks = received at capped ⊢
  generalize payments.filter invoice.quotedBy = matched at capped ⊢
  cases invoice.closedNote with
  | some note => simp [InvoiceState.isPaid]
  | none =>
      cases matched with
      | nil =>
          cases invoice.expiresUnix with
          | none => simp [InvoiceState.isPaid]
          | some deadline =>
              by_cases expired : nowUnix > deadline <;> simp [InvoiceState.isPaid, expired]
      | cons payment rest =>
          cases invoice.amountDarks with
          | none => simp [InvoiceState.isPaid]
          | some asked =>
              have bounded := asked.toNat_lt
              have covers : asked.toNat ≤ Incoming.total (payment :: rest) ↔
                  asked.toNat ≤ received.toNat := by omega
              rcases Nat.lt_trichotomy received.toNat asked.toNat with less | same | more
              · have different : received ≠ asked := fun same => by simp [same] at less
                simp [InvoiceState.isPaid, covers, different, UInt64.lt_iff_toNat_lt, less]
              · simp [InvoiceState.isPaid, covers, UInt64.toNat_inj.mp same]
              · have different : received ≠ asked := fun same => by simp [same] at more
                simp [InvoiceState.isPaid, covers, different, UInt64.lt_iff_toNat_lt,
                  Nat.not_lt.mpr more.le, more.le]

/-- A paid invoice is late if some payment that quotes it came after its deadline. -/
theorem isLate_status (paid : (invoice.status payments nowUnix).state.isPaid = true) :
    (invoice.status payments nowUnix).state.isLate = invoice.lateBy payments := by
  rw [state_status] at paid ⊢
  split at paid
  · simp [InvoiceState.isPaid] at paid
  · rename_i unclosed
    rw [if_neg unclosed]
    split at paid
    · split at paid
      · split at paid <;> simp [InvoiceState.isPaid] at paid
      · simp [InvoiceState.isPaid] at paid
    · rename_i quoted
      rw [if_neg quoted]
      cases invoice.amountDarks with
      | none => rfl
      | some asked =>
          simp only
          split
          · rfl
          · split <;> rfl

theorem lateBy_append : invoice.lateBy (payments ++ more) =
    (invoice.lateBy payments || invoice.lateBy more) := by
  unfold lateBy
  cases invoice.expiresUnix with
  | none => rfl
  | some deadline => simp [List.filter_append]

/-- A paid invoice stays paid. -/
theorem isPaid_append (paid : (invoice.status payments nowUnix).state.isPaid = true) :
    (invoice.status (payments ++ more) laterUnix).state.isPaid = true := by
  rw [isPaid_status_iff] at paid ⊢
  obtain ⟨unclosed, quoted, covered⟩ := paid
  rw [List.filter_append]
  refine ⟨unclosed, by simp [quoted], fun asked isAsked => ?_⟩
  have enough := covered asked isAsked
  simp only [Incoming.total, List.map_append, List.sum_append] at enough ⊢
  omega

end Invoice

/-- A deep payment gets deeper. -/
theorem Incoming.DeepAt.mono {payment : Incoming} {tipHeight laterTip need : UInt64}
    (deep : payment.DeepAt tipHeight need) (later : tipHeight ≤ laterTip)
    (bounded : laterTip.toNat + 1 < 2 ^ 64) : payment.DeepAt laterTip need := by
  obtain ⟨height, block, inside, enough⟩ := deep
  rw [UInt64.le_iff_toNat_le] at inside later
  have measure (tip : UInt64) (below : height.toNat ≤ tip.toNat) (fits : tip.toNat + 1 < 2 ^ 64) :
      (confirmations tip height).toNat = tip.toNat - height.toNat + 1 := by
    rw [confirmations, UInt64.toNat_add, UInt64.toNat_sub_of_le _ _
      (UInt64.le_iff_toNat_le.mpr below), UInt64.toNat_one]
    omega
  have before := measure tipHeight inside (by omega)
  have after := measure laterTip (by omega) bounded
  refine ⟨height, block, UInt64.le_iff_toNat_le.mpr (by omega), ?_⟩
  rw [UInt64.le_iff_toNat_le] at enough ⊢
  omega

/-- A confirmed invoice stays confirmed as long as every further payment that quotes it is
deep enough, and turns late as soon as one of them is late. -/
theorem Invoice.settlement_append_iff {invoice : Invoice} {payments more : List Incoming}
    {nowUnix laterUnix tipHeight laterTip need : UInt64}
    (confirmed : settlement (invoice.status payments nowUnix) tipHeight need = .confirmed)
    (later : tipHeight ≤ laterTip) (bounded : laterTip.toNat + 1 < 2 ^ 64) :
    (settlement (invoice.status (payments ++ more) laterUnix) laterTip need = .confirmed ↔
      ∀ payment ∈ more, invoice.quotedBy payment = true → payment.DeepAt laterTip need) ∧
    ((invoice.status (payments ++ more) laterUnix).state.isLate = true ↔
      (invoice.status payments nowUnix).state.isLate = true ∨
        ∃ payment ∈ more, invoice.quotedBy payment = true ∧
          ∃ deadline ∈ invoice.expiresUnix, deadline < payment.timestamp) := by
  obtain ⟨paid, quoted, deep⟩ := settlement_eq_confirmed.mp confirmed
  rw [matched_status] at quoted deep
  constructor
  · rw [settlement_eq_confirmed, matched_status, List.filter_append]
    have earlier : ∀ payment ∈ payments.filter invoice.quotedBy, payment.DeepAt laterTip need :=
      fun payment member => (deep payment member).mono later bounded
    constructor
    · intro ⟨_, _, all⟩ payment member quotes
      exact all payment (List.mem_append_right _ (List.mem_filter.mpr ⟨member, quotes⟩))
    · intro further
      refine ⟨isPaid_append paid, by simp [quoted], fun payment member => ?_⟩
      cases List.mem_append.mp member with
      | inl before => exact earlier payment before
      | inr after =>
          obtain ⟨member, quotes⟩ := List.mem_filter.mp after
          exact further payment member quotes
  · rw [isLate_status (isPaid_append paid), isLate_status paid, lateBy_append, Bool.or_eq_true]
    apply or_congr_right
    unfold lateBy
    cases invoice.expiresUnix with
    | none => simp
    | some deadline => simp

namespace Sample

/-- A bill of five darks, due at the time 100. -/
def bill : Invoice where
  reference := ascii "A"
  amountDarks := some 5
  description := []
  createdUnix := 0
  expiresUnix := some 100
  closedNote := none

/-- A payment that quotes the bill. -/
def paidBill (amount : UInt64) (height : Option UInt64) (timestamp : UInt64) : Incoming where
  amountDarks := amount
  memo := ascii "A"
  height := height
  timestamp := timestamp
  referenceId := []

theorem bill_stays_confirmed :
    settlement (bill.status [paidBill 5 (some 1) 50] 60) 10 3 = .confirmed ∧
      ((settlement (bill.status ([paidBill 5 (some 1) 50] ++ [paidBill 1 (some 12) 99]) 120)
          20 3 = .confirmed ↔
        ∀ payment ∈ [paidBill 1 (some 12) 99], bill.quotedBy payment = true →
          payment.DeepAt 20 3) ∧
      ((bill.status ([paidBill 5 (some 1) 50] ++ [paidBill 1 (some 12) 99]) 120).state.isLate =
          true ↔
        (bill.status [paidBill 5 (some 1) 50] 60).state.isLate = true ∨
          ∃ payment ∈ [paidBill 1 (some 12) 99], bill.quotedBy payment = true ∧
            ∃ deadline ∈ bill.expiresUnix, deadline < payment.timestamp)) :=
  ⟨by decide, @Invoice.settlement_append_iff bill [paidBill 5 (some 1) 50]
    [paidBill 1 (some 12) 99] 60 120 10 20 3 (by decide) (by decide) (by decide)⟩

/-- One dark with the reference, late and in no block, takes a confirmed bill back and makes
it late, and at the last height the confirmations start again from zero. -/
theorem dust_unconfirms :
    settlement (bill.status [paidBill 5 (some 1) 50] 60) 10 3 = .confirmed ∧
    settlement (bill.status ([paidBill 5 (some 1) 50] ++ [paidBill 1 none 101]) 101) 10 3 =
      .unconfirmed ∧
    (bill.status [paidBill 5 (some 1) 50] 60).state = .paid false ∧
    (bill.status ([paidBill 5 (some 1) 50] ++ [paidBill 1 none 101]) 101).state =
      .overpaid 1 true ∧
    settlement (bill.status [paidBill 5 (some 0) 50] 60) 10 3 = .confirmed ∧
    settlement (bill.status [paidBill 5 (some 0) 50] 60) 18446744073709551615 3 =
      .confirming 0 3 := by
  decide

end Sample

end Nightfall
