import Nightfall.Wallet.Balances
import Nightfall.Wallet.Invoice
import Nightfall.Wallet.Sample

/-!
# An invoice paid through its own request

The reference travels in the link, in the memo of the payment and in the memo field of the
output.  The field holds 64 bytes where a reference may have 64 characters, and its padding
is taken off again as trailing zero characters, so not every reference arrives.
-/

namespace Nightfall

variable {P : Primitives}

/-! ## The memo field -/

/-- The memo that a scan reads from the field of an output. -/
def memoRead (memo : Text) : Text :=
  trimNul (Utf8.lossy (memo.take memoLen ++ List.replicate (memoLen - memo.length) 0))

/-- References that the memo field brings back: without a zero character at the end, and in
64 bytes, or one or two more that belong to a final replacement character. -/
def Arrives (reference : Text) : Prop :=
  reference.getLast? ≠ some 0 ∧
    (reference.length ≤ memoLen ∨
      reference.length ≤ memoLen + 2 ∧ Utf8.replacement <:+ reference)

instance (reference : Text) : Decidable (Arrives reference) :=
  inferInstanceAs (Decidable (_ ∧ (_ ∨ _ ∧ _)))

theorem length_trimNul_le (text : Text) : (trimNul text).length ≤ text.length :=
  (List.rdropWhile_prefix (· == 0) text).length_le

theorem trimNul_append_zeros (text : Text) (count : Nat) :
    trimNul (text ++ List.replicate count 0) = trimNul text := by
  rw [trimNul, trimNul, List.rdropWhile, List.rdropWhile, List.reverse_append,
    List.reverse_replicate, List.dropWhile_append_of_pos]
  intro byte member
  simp [(List.mem_replicate.mp member).2]

theorem trimNul_eq_self_iff {text : Text} : trimNul text = text ↔ text.getLast? ≠ some 0 := by
  rw [trimNul, List.rdropWhile_eq_self_iff]
  constructor
  · intro ends zero
    obtain ⟨front, rfl⟩ := List.getLast?_eq_some_iff.mp zero
    exact ends (by simp) (by simp)
  · intro ends nonempty
    rw [List.getLast?_eq_getLast_of_ne_nil nonempty] at ends
    simpa using ends

theorem isValid_append_zeros {text : Text} (valid : Utf8.isValid text = true) (count : Nat) :
    Utf8.isValid (text ++ List.replicate count 0) = true := by
  rw [Utf8.isValid_append valid]
  induction count with
  | zero => rfl
  | succ count ih =>
      rw [List.replicate_succ, ← List.singleton_append, Utf8.isValid_append (by decide)]
      exact ih

/-- A reference that fits the field comes back unless it ends in a zero character. -/
theorem trim_memoRead_of_fits {reference : Text} (valid : Utf8.isValid reference = true)
    (trimmed : Utf8.Trimmed reference) (fits : reference.length ≤ memoLen) :
    Utf8.trim (memoRead reference) = reference ↔ reference.getLast? ≠ some 0 := by
  rw [memoRead, List.take_of_length_le fits,
    Utf8.lossy_of_isValid (isValid_append_zeros valid _), trimNul_append_zeros,
    ← trimNul_eq_self_iff]
  constructor
  · intro back
    have shorter := Utf8.length_trim_le (trimNul reference)
    rw [back] at shorter
    exact (List.rdropWhile_prefix (· == 0) reference).eq_of_length_le shorter
  · intro kept
    rw [kept, trimmed.trim_eq]

/-- White space does not reach beyond three bytes. -/
theorem trimmed_of_shared {whole rest other : Text} (trimmed : Utf8.Trimmed (whole ++ rest))
    (long : 3 ≤ whole.length) (ends : ∀ space ∈ Utf8.spaces, ¬space <:+ whole ++ other) :
    Utf8.Trimmed (whole ++ other) where
  start space member leads := by
    have short := (Utf8.spaces_spec member).2.1
    have inside : space <+: whole :=
      List.prefix_of_prefix_length_le leads (List.prefix_append whole other) (by omega)
    exact trimmed.start space member (inside.trans (List.prefix_append whole rest))
  stop := ends

theorem getLast?_append_replacement (front : Text) :
    (front ++ Utf8.replacement).getLast? = some 0xBD := by
  simp [Utf8.replacement]

theorem not_suffix_replacement {space front : Text} (member : space ∈ Utf8.spaces) :
    ¬space <:+ front ++ Utf8.replacement := by
  have last : ∀ space ∈ Utf8.spaces, space.getLast? ≠ some 0xBD := by decide +kernel
  rintro ⟨rest, same⟩
  have ends := congrArg List.getLast? same
  rw [getLast?_append_replacement, List.getLast?_append_of_ne_nil _ (Utf8.spaces_ne_nil member)]
    at ends
  exact last space member ends

theorem trimNul_append_replacement (front : Text) :
    trimNul (front ++ Utf8.replacement) = front ++ Utf8.replacement := by
  rw [trimNul_eq_self_iff, getLast?_append_replacement]
  decide

/-- A reference longer than the field comes back if the decoder mends the cut. -/
theorem trim_memoRead_of_longer {reference : Text} (valid : Utf8.isValid reference = true)
    (trimmed : Utf8.Trimmed reference) (longer : memoLen < reference.length) :
    Utf8.trim (memoRead reference) = reference ↔
      reference.length ≤ memoLen + 2 ∧ Utf8.replacement <:+ reference := by
  have noPad : memoLen - reference.length = 0 := by omega
  have cut : (reference.take memoLen).length = memoLen := by
    rw [List.length_take]
    omega
  rw [memoRead, noPad, List.replicate_zero, List.append_nil]
  constructor
  · intro back
    have front := List.take_append_drop memoLen reference
    obtain ⟨whole, part, shape, _, decoded⟩ :=
      @Utf8.lossy_of_append_valid (reference.take memoLen) (reference.drop memoLen)
        (by rwa [front])
    have shorter := (Utf8.length_trim_le _).trans (length_trimNul_le (Utf8.lossy
      (reference.take memoLen)))
    rw [back, decoded] at shorter
    rw [shape] at cut front
    rw [List.length_append] at cut
    cases part with
    | nil =>
        -- The cut is between two characters.
        simp only [List.isEmpty_nil, if_true, List.append_nil] at shorter
        simp only [List.length_nil] at cut
        omega
    | cons byte rest =>
        simp only [List.isEmpty_cons, Bool.false_eq_true, if_false, List.length_append,
          List.length_cons] at shorter cut
        have three : Utf8.replacement.length = 3 := rfl
        have sixtyFour : memoLen = 64 := rfl
        rw [List.append_assoc] at front
        rw [← front] at trimmed
        have mended : Utf8.Trimmed (whole ++ Utf8.replacement) :=
          trimmed_of_shared trimmed (by omega) fun space member => not_suffix_replacement member
        rw [decoded, List.isEmpty_cons, if_neg (by decide), trimNul_append_replacement,
          mended.trim_eq] at back
        exact ⟨by omega, whole, back⟩
  · rintro ⟨close, front, rfl⟩
    have sixtyFour : memoLen = 64 := rfl
    have whole : Utf8.isValid front = true :=
      Utf8.isValid_of_append_cons valid (by decide)
    have three : Utf8.replacement.length = 3 := rfl
    rw [List.length_append, three] at close longer
    have mended : Utf8.lossy (Utf8.replacement.take (memoLen - front.length)) =
        Utf8.replacement := by
      have bytes : memoLen - front.length = 1 ∨ memoLen - front.length = 2 := by omega
      rcases bytes with one | two
      · rw [one]
        rfl
      · rw [two]
        rfl
    rw [List.take_append, List.take_of_length_le (by omega), Utf8.lossy_append whole, mended,
      trimNul_append_replacement, trimmed.trim_eq]

/-- Exactly the references that arrive come back from the memo field. -/
theorem trim_memoRead_iff {reference : Text} (valid : Utf8.isValid reference = true)
    (trimmed : Utf8.Trimmed reference) :
    Utf8.trim (memoRead reference) = reference ↔ Arrives reference := by
  by_cases fits : reference.length ≤ memoLen
  · rw [trim_memoRead_of_fits valid trimmed fits, Arrives]
    simp [fits]
  · rw [trim_memoRead_of_longer valid trimmed (Nat.lt_of_not_le fits), Arrives]
    constructor
    · rintro ⟨close, front, rfl⟩
      refine ⟨?_, .inr ⟨close, List.suffix_append _ _⟩⟩
      rw [getLast?_append_replacement]
      decide
    · rintro ⟨_, fits' | mended⟩
      · exact absurd fits' fits
      · exact mended

/-! ## Scanning what was created -/

/-- The payload cipher is undone under the same key and nonce. -/
def TransferCrypto.Opens (C : TransferCrypto P) (S : Sealing) : Prop :=
  ∀ {key : Bytes32} {nonce plain payload : Bytes}, C.encrypt key nonce plain = some payload →
    S.decrypt key nonce payload = some plain

theorem u64FromLeBytes_u64LeBytes (value : UInt64) : u64FromLeBytes (u64LeBytes value) = value := by
  have bounded := value.toNat_lt
  have total : (u64LeBytes value).foldr (fun byte total => byte.toNat + 256 * total) 0 =
      value.toNat := by
    simp only [u64LeBytes, List.range_succ, List.range_zero, List.nil_append, List.cons_append,
      List.map_cons, List.map_nil, List.foldr_cons, List.foldr_nil, UInt8.toNat_ofNat',
      Nat.shiftRight_eq_div_pow]
    omega
  rw [u64FromLeBytes, total, UInt64.ofNat_toNat]

/-- The plaintext of a payload is read back field by field. -/
theorem openPlain_sealedPlain {S : Sealing} {candidate : ScanCandidate} {offset blind : P.Scalar}
    {value : UInt64} {memo : Text} (opens : candidate.commit = commitNew P value blind) :
    openPlain P S candidate offset (sealedPlain value blind memo) =
      some
        { value := value
          blind := blind
          keyOffset := offset
          memo := trimNul (S.utf8Lossy (memo.take memoLen ++
            List.replicate (memoLen - memo.length) 0))
          commit := candidate.commit
          outputPk := candidate.outputPk } := by
  have whole : (sealedPlain value blind memo).length = payloadLen := by
    simp only [sealedPlain, List.length_append, length_u64LeBytes, Bytes32.length_toBytes,
      List.length_take, List.length_replicate, payloadLen]
    omega
  have amount : (sealedPlain value blind memo).take 8 = u64LeBytes value := by
    rw [sealedPlain, List.append_assoc]
    exact List.take_left' (length_u64LeBytes value)
  have afterAmount : (sealedPlain value blind memo).drop 8 = (P.scalarToBytes blind).toBytes ++
      (memo.take memoLen ++ List.replicate (memoLen - memo.length) 0) := by
    rw [sealedPlain, List.append_assoc]
    exact List.drop_left' (length_u64LeBytes value)
  have factor : ((sealedPlain value blind memo).drop 8).take 32 =
      (P.scalarToBytes blind).toBytes := by
    rw [afterAmount]
    exact List.take_left' (Bytes32.length_toBytes _)
  have text : (sealedPlain value blind memo).drop 40 =
      memo.take memoLen ++ List.replicate (memoLen - memo.length) 0 := by
    rw [← List.drop_drop (i := 32) (j := 8), afterAmount]
    exact List.drop_left' (Bytes32.length_toBytes _)
  rw [openPlain, if_neg (not_not.mpr whole), amount, factor, text, u64FromLeBytes_u64LeBytes,
    Bytes32.ofBytes_toBytes]
  simp only [Option.bind_eq_bind, Option.bind_some, P.scalarFromBytes_toBytes, opens, ne_eq,
    not_true_eq_false, if_false]

/-- The receiver's scan opens an output created for them. -/
theorem scan_createOutput {C : TransferCrypto P} {S : Sealing} (sound : C.Sound) (opens : C.Opens S)
    {keys : WalletKeys P} {r : P.Scalar} {value : UInt64} {memo : Text} {ctx : Bytes}
    {features : OutputFeature} {created : Output × SenderSecrets P}
    (isCreated : createOutput C r keys.address value memo ctx features = some created) :
    ∃ found, scanCandidate P S keys.viewKey (.fromOutput created.1) = some found ∧
      found.value = value ∧
      found.memo = trimNul (S.utf8Lossy (memo.take memoLen ++
        List.replicate (memoLen - memo.length) 0)) := by
  simp only [createOutput, WalletKeys.address, P.decompress_compress, Option.bind_eq_bind,
    Option.bind_eq_some_iff, Option.some.injEq, Option.bind_some] at isCreated
  obtain ⟨⟨proof, commit⟩, proved, payload, encrypted, rfl⟩ := isCreated
  obtain ⟨rfl, _⟩ := sound.proves proved
  -- Both sides derive the same secret.
  have agree : keys.scanSk • r • P.generatorG = r • keys.scanSk • P.generatorG := smul_comm _ _ _
  simp only [scanCandidate, WalletKeys.viewKey, ScanCandidate.fromOutput, P.decompress_compress,
    Option.bind_eq_bind, Option.bind_some, agree, ne_eq, not_true_eq_false, if_false,
    opens encrypted]
  exact ⟨_, openPlain_sealedPlain rfl, rfl, rfl⟩

/-! ## Where the invoice stands -/

/-- The payment is reported as what settled the invoice. -/
structure InvoiceStatus.SettledBy (status : InvoiceStatus) (payment : Incoming) : Prop where
  matched : payment ∈ status.matched
  paid : ∃ late, status.state = .paid late
  received : status.receivedDarks = payment.amountDarks

namespace Invoice

variable {invoice : Invoice} {before after : List Incoming} {payment : Incoming}

/-- A payment of what was asked, and the only one that quotes the reference, settles exactly
the open invoices whose reference it quotes. -/
theorem settledBy_iff (others : ∀ other ∈ before ++ after, invoice.quotedBy other = false)
    (asked : ∀ darks ∈ invoice.amountDarks, payment.amountDarks = darks) (nowUnix : UInt64) :
    (invoice.status (before ++ payment :: after) nowUnix).SettledBy payment ↔
      invoice.closedNote = none ∧ invoice.quotedBy payment = true := by
  have first : before.filter invoice.quotedBy = [] := by
    refine List.filter_eq_nil_iff.mpr fun other member => ?_
    simp [others other (List.mem_append_left _ member)]
  have second : after.filter invoice.quotedBy = [] := by
    refine List.filter_eq_nil_iff.mpr fun other member => ?_
    simp [others other (List.mem_append_right _ member)]
  have matched : (before ++ payment :: after).filter invoice.quotedBy =
      if invoice.quotedBy payment then [payment] else [] := by
    rw [List.filter_append, List.filter_cons, first, second, List.nil_append]
  constructor
  · rintro ⟨member, ⟨late, paid⟩, _⟩
    have quoted : invoice.quotedBy payment = true := (List.mem_filter.mp member).2
    refine ⟨?_, quoted⟩
    cases note : invoice.closedNote with
    | none => rfl
    | some text => simp [status, note] at paid
  · rintro ⟨opened, quoted⟩
    rw [quoted, if_pos rfl] at matched
    have sum : Machine.saturatingAdd 0 payment.amountDarks = payment.amountDarks := by
      apply UInt64.toNat_inj.mp
      rw [Machine.toNat_saturatingAdd]
      have bounded := payment.amountDarks.toNat_lt
      simp
      omega
    have received : (invoice.status (before ++ payment :: after) nowUnix).receivedDarks =
        payment.amountDarks := by
      rw [status, matched, List.map_singleton, List.foldl_cons, List.foldl_nil, sum]
    refine ⟨?_, ?_, received⟩
    · rw [status, matched]
      exact List.mem_singleton_self payment
    · have isOpen : ¬invoice.closedNote.isSome = true := by rw [opened]; decide
      rw [status, matched]
      simp only [isOpen, Bool.false_eq_true, if_false, List.isEmpty_cons, List.map_singleton,
        List.foldl_cons, List.foldl_nil, sum]
      cases darks : invoice.amountDarks with
      | none => exact ⟨_, rfl⟩
      | some amount =>
          rw [asked amount darks]
          simp

end Invoice

namespace Till

variable {till opened : Till P} {invoice : Invoice} {keys : WalletKeys P} {network : NetworkId}

/-- What a till that took an invoice has checked. -/
theorem check_of_addInvoice (added : till.addInvoice invoice = (.ok (), opened)) :
    invoice.stored.check = .ok () := by
  rw [addInvoice] at added
  split at added
  · simp at added
  · next accepted =>
      rw [accepts, Guard.bind_eq_ok] at accepted
      obtain ⟨_, checked, _⟩ := accepted
      exact checked

theorem addInvoice_of_accepts (accepted : till.accepts invoice.stored = .ok ())
    (saved : till.wallet.save = .ok ()) :
    till.addInvoice invoice =
      (.ok (), { till with invoices := till.invoices ++ [invoice.stored] }) := by
  rw [addInvoice, accepted, saved]
  rfl

/-- The link of the request of an accepted invoice is read back. -/
theorem parse_requestFor (text : Utf8.isValid invoice.reference = true)
    (added : till.addInvoice invoice = (.ok (), opened)) :
    PaymentRequest.parse P ((invoice.stored.requestFor keys.address network).toUri P) =
      .ok (invoice.stored.requestFor keys.address network) := by
  have checked := check_of_addInvoice added
  simp only [Invoice.check, Guard.bind_eq_ok, Guard.refuse_eq_ok, not_exists, not_and] at checked
  obtain ⟨_, _, _, short, _, _, _, _, supply⟩ := checked
  have valid : Utf8.isValid (Utf8.trim invoice.stored.reference) = true :=
    Utf8.isValid_trim (Utf8.isValid_trim text)
  refine PaymentRequest.parse_toUri
    { scanPoint := ?_
      spendPoint := ?_
      amount := fun darks asked => UInt64.not_lt.mp (supply darks asked)
      memoText := valid
      memoShort := Nat.le_of_not_lt short
      invoiceText := valid
      invoiceShort := Nat.le_of_not_lt short }
  · rw [Invoice.requestFor, WalletKeys.address, P.decompress_compress]
    rfl
  · rw [Invoice.requestFor, WalletKeys.address, P.decompress_compress]
    rfl

/-- A payment that follows the request of an accepted invoice is found by the payee, and
settles the invoice exactly if that is still open and its reference arrives. -/
theorem invoice_settles_iff {S : Sealing} {C : TransferCrypto P} (standard : S.utf8Lossy = Utf8.lossy)
    (opens : C.Opens S) (sound : C.Sound) (text : Utf8.isValid invoice.reference = true)
    (added : till.addInvoice invoice = (.ok (), opened)) :
    ∃ request, PaymentRequest.parse P
        ((invoice.stored.requestFor keys.address network).toUri P) = .ok request ∧
      ∀ {r : P.Scalar} {chosen : UInt64} {ctx : Bytes} {features : OutputFeature}
        {created : Output × SenderSecrets P},
        createOutput C r request.address (request.amountDarks.getD chosen) request.memo ctx
            features = some created →
        ∃ found, scanCandidate P S keys.viewKey (.fromOutput created.1) = some found ∧
          found.value = request.amountDarks.getD chosen ∧
          ∀ {height timestamp nowUnix : UInt64} {before after : List Incoming},
            (∀ other ∈ before ++ after, invoice.stored.quotedBy other = false) →
            ((invoice.stored.status
                (before ++ asIncoming (found.incoming height timestamp false) :: after)
                nowUnix).SettledBy (asIncoming (found.incoming height timestamp false)) ↔
              invoice.closedNote = none ∧ Arrives (Utf8.trim invoice.reference)) := by
  refine ⟨_, parse_requestFor text added, ?_⟩
  intro r chosen ctx features created isCreated
  obtain ⟨found, scanned, value, memo⟩ := scan_createOutput sound opens isCreated
  refine ⟨found, scanned, value, ?_⟩
  intro height timestamp nowUnix before after others
  have asked : ∀ darks ∈ invoice.stored.amountDarks,
      (asIncoming (found.incoming height timestamp false)).amountDarks = darks := by
    intro darks wanted
    have amount : invoice.stored.amountDarks = some darks := wanted
    rw [asIncoming, DiscoveredOutput.incoming, value, Invoice.requestFor, amount, Option.getD_some]
  have quoted : invoice.stored.quotedBy (asIncoming (found.incoming height timestamp false)) = true ↔
      Arrives (Utf8.trim invoice.reference) := by
    rw [← trim_memoRead_iff (Utf8.isValid_trim text) (Utf8.trimmed_trim _), Invoice.quotedBy,
      decide_eq_true_eq, asIncoming, DiscoveredOutput.incoming, memo, standard, memoRead,
      Invoice.requestFor, Invoice.stored, Utf8.trim_trim]
  rw [Invoice.settledBy_iff others asked, quoted]
  rfl

end Till

/-! ## An invoice that settles, and one that does not -/

namespace Sample

/-- A cipher that leaves the plaintext readable, and the lossy decoder. -/
def plainSealing : Sealing where
  decrypt _ _ payload := some payload
  utf8Lossy := Utf8.lossy

theorem prover_opens : prover.Opens plainSealing := by
  intro key nonce plain payload encrypted
  exact encrypted.symm

def till : Till primitives where
  wallet := wallet
  invoices := []

def invoiceOf (reference : Text) : Invoice where
  reference := reference
  amountDarks := some 5
  description := []
  createdUnix := 0
  expiresUnix := none
  closedNote := none

/-- The till after it took the invoice. -/
def tillWith (reference : Text) : Till primitives :=
  { till with invoices := [(invoiceOf reference).stored] }

/-- Thirty-three characters in sixty-six bytes. -/
def longReference : Text := (List.replicate 33 [0xC3, 0xA9]).flatten

/-- A payment through the request of the invoice, as the wallet records it. -/
def PaidThrough (reference : Text) (payment : Incoming) : Prop :=
  ∃ request created found,
    PaymentRequest.parse primitives
        (((invoiceOf reference).stored.requestFor keys.address .devnet).toUri primitives) =
      .ok request ∧
    createOutput prover (3 : Nat) request.address (request.amountDarks.getD 0) request.memo []
        .plain = some created ∧
      scanCandidate primitives plainSealing keys.viewKey (.fromOutput created.1) = some found ∧
      payment = Till.asIncoming (found.incoming 1 1000 false)

theorem prover_creates (value : UInt64) (memo : Text) :
    ∃ created, createOutput prover (3 : Nat) keys.address value memo [] .plain = some created := by
  simp [createOutput, WalletKeys.address, primitives, decompress_compress, prover]

theorem added_of_accepts {reference : Text}
    (accepted : (till.accepts (invoiceOf reference).stored).isOk = true) :
    till.addInvoice (invoiceOf reference) = (.ok (), tillWith reference) := by
  cases checked : till.accepts (invoiceOf reference).stored with
  | error message =>
      rw [checked] at accepted
      exact absurd accepted Bool.false_ne_true
  | ok value => exact Till.addInvoice_of_accepts checked rfl

end Sample

open Sample in
/-- A short reference settles its invoice. -/
theorem Till.invoice_settles_iff_short :
    ∃ payment, PaidThrough (ascii "A-17") payment ∧
      ((invoiceOf (ascii "A-17")).stored.status [payment] 1000).SettledBy payment := by
  have text : Utf8.isValid (ascii "A-17") = true := by decide +kernel
  have added : till.addInvoice (invoiceOf (ascii "A-17")) = (.ok (), tillWith (ascii "A-17")) :=
    added_of_accepts (by decide +kernel)
  obtain ⟨request, parsed, paid⟩ := @Till.invoice_settles_iff _ till (tillWith (ascii "A-17"))
    (invoiceOf (ascii "A-17")) keys .devnet plainSealing prover rfl prover_opens prover_sound text
    added
  obtain rfl := Except.ok.inj ((Till.parse_requestFor text added).symm.trans parsed)
  obtain ⟨created, isCreated⟩ := prover_creates 5 (Utf8.trim (invoiceOf (ascii "A-17")).stored.reference)
  obtain ⟨found, scanned, _, settled⟩ := @paid (3 : Nat) 0 [] .plain created isCreated
  refine ⟨_, ⟨_, _, _, parsed, isCreated, scanned, rfl⟩, ?_⟩
  exact (@settled 1 1000 1000 [] [] (by simp)).mpr ⟨rfl, by decide +kernel⟩

open Sample in
/-- A reference that fits the request and not the memo field leaves its invoice unpaid. -/
theorem Till.invoice_unsettled :
    (till.addInvoice (invoiceOf longReference)).1 = .ok () ∧
      ∃ payment, PaidThrough longReference payment ∧
        ((invoiceOf longReference).stored.status [payment] 1000).state = .unpaid := by
  have text : Utf8.isValid longReference = true := by decide +kernel
  have added : till.addInvoice (invoiceOf longReference) = (.ok (), tillWith longReference) :=
    added_of_accepts (by decide +kernel)
  refine ⟨by rw [added], ?_⟩
  obtain ⟨created, isCreated⟩ :=
    prover_creates 5 (Utf8.trim (invoiceOf longReference).stored.reference)
  obtain ⟨found, scanned, value, memo⟩ := scan_createOutput prover_sound prover_opens isCreated
  refine ⟨_, ⟨_, _, _, Till.parse_requestFor text added, isCreated, scanned, rfl⟩, ?_⟩
  have unquoted : (invoiceOf longReference).stored.quotedBy
      (Till.asIncoming (found.incoming 1 1000 false)) = false := by
    have lost : Utf8.trim (memoRead (Utf8.trim (invoiceOf longReference).stored.reference)) ≠
        Utf8.trim (invoiceOf longReference).stored.reference := by decide +kernel
    rw [Invoice.quotedBy, decide_eq_false_iff_not]
    change ¬Utf8.trim found.memo = _
    rw [memo]
    exact lost
  rw [Invoice.status]
  simp only [List.filter_cons, unquoted]
  rfl

end Nightfall
