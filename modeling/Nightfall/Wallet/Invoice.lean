import Nightfall.Wallet.PaymentRequest
import Nightfall.Wallet.State

/-!
# The till

Invoices that a wallet wrote, and where each of them stands by the payments that quote its
reference.  A payment settles an invoice by its reference, never by its amount.
-/

namespace Nightfall

/-- Longest reference, in characters. -/
def maxReference : Nat := 64

/-- Longest description, in characters. -/
def maxDescription : Nat := 64

/-- Most invoices one till keeps. -/
def maxInvoices : Nat := 2000

/-- One thing the merchant asked to be paid for. -/
structure Invoice where
  reference : Text
  /-- `none` means that the payer chose the amount. -/
  amountDarks : Option UInt64
  description : Text
  createdUnix : UInt64
  /-- The merchant's own deadline. -/
  expiresUnix : Option UInt64
  /-- Set when the merchant closes an invoice by hand. -/
  closedNote : Option Text
  deriving DecidableEq

/-- A payment as a view key sees it. -/
structure Incoming where
  amountDarks : UInt64
  memo : Text
  /-- `none` while the payment is not in a block. -/
  height : Option UInt64
  timestamp : UInt64
  referenceId : Text
  deriving DecidableEq

/-- Where an invoice stands. -/
inductive InvoiceState where
  | unpaid
  | expired
  | paid (late : Bool)
  | underpaid (shortDarks : UInt64) (late : Bool)
  | overpaid (extraDarks : UInt64) (late : Bool)
  | closed
  deriving DecidableEq

/-- An invoice and what has happened to it. -/
structure InvoiceStatus where
  state : InvoiceState
  /-- Payments that quoted the reference. -/
  matched : List Incoming
  /-- Payments that did not, and could be meant for it. -/
  candidates : List Incoming
  receivedDarks : UInt64

namespace Invoice

/-- Refuse an invoice a till cannot hold honestly. -/
def check (invoice : Invoice) : Except Text Unit := do
  let reference := Utf8.trim invoice.reference
  Guard.refuse (reference = []) (ascii "Give this invoice a reference. It is what a payment quotes " ++
    ascii "to settle it, and without one nothing can be matched to it.")
  Guard.refuse (maxReference < Utf8.charCount reference)
    (ascii "A reference is at most 64 characters, so it fits in a payment request.")
  Guard.refuse (maxDescription < Utf8.charCount invoice.description)
    (ascii "A description is at most 64 characters.")
  Guard.refuse (invoice.amountDarks = some 0) (ascii "An invoice for zero is not an invoice. " ++
    ascii "Leave the amount empty if the payer chooses it.")
  Guard.refuse (∃ darks ∈ invoice.amountDarks, darks > maxSupplyDarks)
    (ascii "That is more NIGHT than will ever exist.")

/-- The invoice as the till keeps it. -/
def stored (invoice : Invoice) : Invoice :=
  { invoice with
    reference := Utf8.trim invoice.reference
    description := Utf8.trim invoice.description }

/-- Plainly somebody else's reference. -/
def looksLikeAnotherReference (memo : Text) : Bool :=
  let memo := Utf8.trim memo
  !memo.isEmpty && !memo.contains 32 && Utf8.charCount memo ≤ maxReference

/-- Does a payment quote the reference?  Exact, after trimming. -/
def quotedBy (invoice : Invoice) (payment : Incoming) : Bool :=
  Utf8.trim payment.memo = Utf8.trim invoice.reference

/-- An unclaimed payment for exactly the right figure. -/
def mayBeMeantBy (invoice : Invoice) (payment : Incoming) : Bool :=
  match invoice.amountDarks with
  | none => false
  | some asked =>
      !looksLikeAnotherReference payment.memo && payment.amountDarks == asked &&
        decide (payment.timestamp ≥ invoice.createdUnix)

/-- Where one invoice stands, from the payments a view key can see. -/
def status (invoice : Invoice) (payments : List Incoming) (nowUnix : UInt64) : InvoiceStatus :=
  let matched := payments.filter invoice.quotedBy
  let candidates := payments.filter fun payment =>
    !invoice.quotedBy payment && invoice.mayBeMeantBy payment
  let received := (matched.map Incoming.amountDarks).foldl Machine.saturatingAdd 0
  let late := match invoice.expiresUnix with
    | none => false
    | some deadline => matched.any fun payment => payment.timestamp > deadline
  let state : InvoiceState :=
    if invoice.closedNote.isSome then .closed
    else if matched.isEmpty then
      match invoice.expiresUnix with
      | some deadline => if nowUnix > deadline then .expired else .unpaid
      | none => .unpaid
    else match invoice.amountDarks with
      | none => .paid late
      | some asked =>
          if received = asked then .paid late
          else if received < asked then .underpaid (asked - received) late
          else .overpaid (received - asked) late
  { state := state
    matched := matched
    -- A settled invoice leaves no question open.
    candidates := match state with
      | .paid _ | .overpaid _ _ | .closed => []
      | _ => candidates
    receivedDarks := received }

/-- The payment request of an invoice. -/
def requestFor (invoice : Invoice) (address : Address) (network : NetworkId) : PaymentRequest where
  address := address
  network := network
  amountDarks := invoice.amountDarks
  memo := Utf8.trim invoice.reference
  invoice := Utf8.trim invoice.reference
  expiresUnix := invoice.expiresUnix

end Invoice

/-! ## The till of a wallet -/

inductive TillError where
  | refused (message : Text)
  | notSaved
  deriving DecidableEq

/-- A wallet and the invoices it wrote. -/
structure Till (P : Primitives) where
  wallet : Wallet P
  invoices : List Invoice

namespace Till

variable {P : Primitives}

/-- What `addInvoice` checks of the invoice that it would keep. -/
def accepts (till : Till P) (invoice : Invoice) : Except Text Unit := do
  invoice.check
  Guard.refuse (∃ other ∈ till.invoices, other.reference = invoice.reference)
    (ascii "This till already has an invoice with the reference " ++ invoice.reference ++
      ascii ". Two invoices sharing one reference would both be settled by the same payment.")
  Guard.refuse (maxInvoices ≤ till.invoices.length)
    (ascii "This till is holding 2000 invoices, which is as many as it keeps. " ++
      ascii "Remove some that are settled.")

/-- Keep an invoice, and save. -/
def addInvoice (till : Till P) (invoice : Invoice) : Except TillError Unit × Till P :=
  match till.accepts invoice.stored with
  | .error message => (.error (.refused message), till)
  | .ok _ =>
      (till.wallet.save.mapError fun _ => .notSaved,
        { till with invoices := till.invoices ++ [invoice.stored] })

/-- Close an invoice by hand, with the merchant's reason. -/
def closeInvoice (till : Till P) (reference note : Text) : Except TillError Unit × Till P :=
  let note := Utf8.trim note
  if note = [] then
    (.error (.refused (ascii "Say why this is closed. A till with unexplained closures cannot be " ++
      ascii "reconciled at the end of the day.")), till)
  else
    match till.invoices.findIdx? fun invoice => invoice.reference = Utf8.trim reference with
    | none => (.error (.refused (ascii "no invoice with that reference")), till)
    | some index =>
        (till.wallet.save.mapError fun _ => .notSaved,
          { till with
            invoices := till.invoices.modify index fun invoice =>
              { invoice with closedNote := some note } })

/-- Forget an invoice, and save. -/
def removeInvoice (till : Till P) (reference : Text) : Except TillError Unit × Till P :=
  let kept := till.invoices.filter fun invoice => invoice.reference ≠ Utf8.trim reference
  if kept.length < till.invoices.length then
    (till.wallet.save.mapError fun _ => .notSaved, { till with invoices := kept })
  else
    (.error (.refused (ascii "no invoice with that reference")), { till with invoices := kept })

/-- An activity line as a till sees it. -/
def asIncoming (entry : HistoryEntry) : Incoming where
  amountDarks := entry.amount
  memo := entry.memo
  height := entry.height
  timestamp := entry.timestamp
  referenceId := entry.txid

/-- Incoming payments as a till sees them. -/
def incoming (till : Till P) : List Incoming :=
  (till.wallet.db.history.filter (·.direction = .received)).map asIncoming

/-- Where every invoice stands, in the order they were written. -/
def standings (till : Till P) (nowUnix : UInt64) : List (Invoice × InvoiceStatus) :=
  till.invoices.map fun invoice => (invoice, invoice.status till.incoming nowUnix)

end Till

end Nightfall
