import Nightfall.Types
import Nightfall.Library.Guard
import Nightfall.Library.Machine
import Nightfall.Wallet.Stealth

/-!
# The journal of swaps

Recovery records under compare and swap.  A record takes part of a budget when it is
admitted, as much as it can ever grow to.
-/

namespace Nightfall

open Machine (checkedAdd)

namespace Swap

def maxRecordBytes : Nat := 2 * 1024 * 1024

def maxJournalBytes : Nat := 8 * 1024 * 1024

/-- Bound of the format, for journals of older writers. -/
def maxRecords : Nat := 64

/-- Each admitted record reserves its maximum payload size. -/
def maxReservedRecords : Nat := maxJournalBytes / maxRecordBytes

structure Record where
  id : Text
  revision : UInt64
  payload : Text
  deriving DecidableEq

structure Journal where
  version : UInt32
  records : List Record
  deriving DecidableEq

/-- A new journal. -/
def Journal.default : Journal :=
  ⟨1, []⟩

inductive SwapError where
  | unsupportedFormat
  | tooManyRecords
  | invalidOrDuplicateId
  | invalidRevision
  | payloadSize
  | journalSize
  | plaintextStorage
  | invalidId
  | staleRevision
  | revisionExhausted
  | capacityReserved
  | noRecord
  deriving DecidableEq

/-- Lower case hex digits, with hyphens where a UUID has them. -/
def validId (id : Text) : Bool :=
  id.length == 36 && id.zipIdx.all fun entry =>
    if entry.2 ∈ [8, 13, 18, 23] then entry.1 == 45
    else (48 ≤ entry.1 && entry.1 ≤ 57) || (97 ≤ entry.1 && entry.1 ≤ 102)

/-- Bytes of all payloads. -/
def payloadBytes (records : List Record) : Nat :=
  (records.map fun record => record.payload.length).sum

namespace Journal

def isEmpty (journal : Journal) : Bool :=
  journal.records.isEmpty

def validate (journal : Journal) : Except SwapError Unit := do
  Guard.refuse (journal.version ≠ 1) .unsupportedFormat
  Guard.refuse (journal.records.length > maxRecords) .tooManyRecords
  Guard.eachOnce Record.id (fun _ => .invalidOrDuplicateId)
    (fun record => Guard.refuse (¬validId record.id) .invalidOrDuplicateId)
    (fun record => do
      Guard.refuse (record.revision = 0) .invalidRevision
      Guard.refuse (record.payload = [] ∨ record.payload.length > maxRecordBytes) .payloadSize)
    [] journal.records
  Guard.refuse (payloadBytes journal.records > maxJournalBytes) .journalSize

def position (journal : Journal) (id : Text) : Option Nat :=
  journal.records.findIdx? fun record => record.id = id

/-- The record with this id. -/
def find (journal : Journal) (id : Text) : Option Record :=
  journal.records.find? fun record => record.id = id

/-- The records with other ids. -/
def others (journal : Journal) (id : Text) : List Record :=
  journal.records.filter fun record => record.id ≠ id

/-- Replace the record at a position, or add one. -/
def store (journal : Journal) (index : Option Nat) (record : Record) : Journal :=
  match index with
  | some index => { journal with records := journal.records.set index record }
  | none => { journal with records := journal.records ++ [record] }

end Journal

/-- The part of a wallet that the journal reads and writes. -/
structure SwapWallet where
  /-- Does the wallet write plain text? -/
  persist : Bool
  journal : Journal
  deriving DecidableEq

namespace SwapWallet

def hasSwapRecovery (wallet : SwapWallet) : Bool :=
  !wallet.journal.isEmpty

def swapCheckpoint (wallet : SwapWallet) (id : Text) : Option (UInt64 × Text) :=
  (wallet.journal.find id).map fun record => (record.revision, record.payload)

/-- The checks of a put: where the record stands, and its next revision. -/
def admitted (wallet : SwapWallet) (id : Text) (expectedRevision : UInt64) (payload : Text) :
    Except SwapError (Option Nat × UInt64) := do
  Guard.refuse wallet.persist .plaintextStorage
  Guard.refuse (¬validId id) .invalidId
  Guard.refuse (payload = [] ∨ payload.length > maxRecordBytes) .payloadSize
  wallet.journal.validate
  let index := wallet.journal.position id
  let current := (index.bind (wallet.journal.records[·]?)).elim 0 Record.revision
  Guard.refuse (current ≠ expectedRevision) .staleRevision
  let revision ← Guard.need (checkedAdd current 1) .revisionExhausted
  Guard.refuse (¬(index.isSome ∨ wallet.journal.records.length < maxReservedRecords))
    .capacityReserved
  Guard.refuse (payloadBytes (wallet.journal.others id) + payload.length > maxJournalBytes)
    .journalSize
  .ok (index, revision)

def putSwapCheckpoint (wallet : SwapWallet) (id : Text) (expectedRevision : UInt64)
    (payload : Text) : Except SwapError UInt64 × SwapWallet :=
  match wallet.admitted id expectedRevision payload with
  | .error error => (.error error, wallet)
  | .ok (index, revision) =>
      (.ok revision, { wallet with journal := wallet.journal.store index ⟨id, revision, payload⟩ })

/-- The checks of a retirement: where the record stands. -/
def retirable (wallet : SwapWallet) (id : Text) (expectedRevision : UInt64) :
    Except SwapError Nat := do
  Guard.refuse wallet.persist .plaintextStorage
  Guard.refuse (¬validId id) .invalidId
  let index ← Guard.need (wallet.journal.position id) .noRecord
  Guard.refuse ((wallet.journal.records[index]?).map Record.revision ≠ some expectedRevision)
    .staleRevision
  .ok index

def retireSwapCheckpoint (wallet : SwapWallet) (id : Text) (expectedRevision : UInt64) :
    Except SwapError Unit × SwapWallet :=
  match wallet.retirable id expectedRevision with
  | .error error => (.error error, wallet)
  | .ok index =>
      (.ok (), { wallet with
        journal := { wallet.journal with records := wallet.journal.records.eraseIdx index } })

end SwapWallet

/-! ## Valid journals -/

/-- What `validate` asks of a record. -/
structure Record.Valid (record : Record) : Prop where
  named : validId record.id = true
  revision : record.revision ≠ 0
  filled : record.payload ≠ []
  small : record.payload.length ≤ maxRecordBytes

namespace Journal

variable {journal : Journal} {id : Text} {record : Record}

/-- What `validate` asks of a journal. -/
structure Valid (journal : Journal) : Prop where
  format : journal.version = 1
  few : journal.records.length ≤ maxRecords
  records : ∀ record ∈ journal.records, record.Valid
  ids : (journal.records.map Record.id).Nodup
  size : payloadBytes journal.records ≤ maxJournalBytes

theorem validate_eq_ok {result : Unit} : journal.validate = .ok result ↔ journal.Valid := by
  simp only [validate, Guard.bind_eq_ok, Guard.refuse_eq_ok, Guard.eachOnce_eq_ok,
    exists_const, Decidable.not_not, not_lt, not_or]
  constructor
  · rintro ⟨format, few, ⟨each, ids⟩, size⟩
    refine ⟨format, few, fun record member => ?_, ids, size⟩
    obtain ⟨named, revision, filled, small⟩ := each record member
    exact ⟨named, revision, filled, small⟩
  · intro valid
    refine ⟨valid.format, valid.few, ⟨fun record member => ?_, valid.ids⟩, valid.size⟩
    obtain ⟨named, revision, filled, small⟩ := valid.records record member
    exact ⟨named, revision, filled, small⟩

/-! ## Records by id -/

theorem find_eq_some (ids : (journal.records.map Record.id).Nodup) :
    journal.find id = some record ↔ record ∈ journal.records ∧ record.id = id := by
  constructor
  · intro found
    exact ⟨List.mem_of_find?_eq_some found, by simpa using List.find?_some found⟩
  · rintro ⟨member, rfl⟩
    cases found : journal.find record.id with
    | none =>
        have absent := List.find?_eq_none.mp found record member
        simp at absent
    | some other =>
        have here := List.mem_of_find?_eq_some found
        have same : other.id = record.id := by simpa using List.find?_some found
        rw [List.inj_on_of_nodup_map ids here member same]

theorem find_eq_none : journal.find id = none ↔ ∀ record ∈ journal.records, record.id ≠ id := by
  simp [find]

theorem position_eq_none : journal.position id = none ↔ journal.find id = none := by
  simp [position, find_eq_none]

/-- The record at the position of an id is the record with that id. -/
theorem find_eq_position :
    (journal.position id).bind (journal.records[·]?) = journal.find id :=
  List.find?_eq_bind_findIdx?_getElem?.symm

/-- Without the record at the position of an id the others are left. -/
theorem eraseIdx_position {index : Nat} (ids : (journal.records.map Record.id).Nodup)
    (found : journal.position id = some index) :
    journal.records.eraseIdx index = journal.others id := by
  obtain ⟨version, records⟩ := journal
  simp only [position, others] at ids found ⊢
  induction records generalizing index with
  | nil => cases found
  | cons first rest ih =>
      rw [List.map_cons, List.nodup_cons] at ids
      rw [List.findIdx?_cons] at found
      by_cases here : first.id = id
      · simp only [here, decide_true, if_true, Option.some.injEq] at found
        subst found
        have different (other : Record) (member : other ∈ rest) : other.id ≠ id :=
          fun same => ids.1 (List.mem_map.mpr ⟨other, member, same.trans here.symm⟩)
        rw [List.eraseIdx_cons_zero, List.filter_cons_of_neg (by simp [here]),
          List.filter_eq_self.mpr fun other member => by simp [different other member]]
      · simp only [here, decide_false, Bool.false_eq_true, if_false, Option.map_eq_some_iff]
          at found
        obtain ⟨behind, found, rfl⟩ := found
        rw [List.eraseIdx_cons_succ, List.filter_cons_of_pos (by simp [here]),
          ih ids.2 found]

/-- Storing a record leaves the others. -/
theorem store_perm (ids : (journal.records.map Record.id).Nodup) (id : Text) (record : Record) :
    (journal.store (journal.position id) record).records.Perm (record :: journal.others id) := by
  cases found : journal.position id with
  | none =>
      have none := find_eq_none.mp (position_eq_none.mp found)
      rw [store, others, List.filter_eq_self.mpr fun other member => by
        simp [none other member]]
      exact List.perm_append_singleton record journal.records
  | some index =>
      have inside : index < journal.records.length :=
        (List.findIdx?_eq_some_iff_getElem.mp found).1
      rw [store, ← eraseIdx_position ids found]
      exact List.set_perm_cons_eraseIdx inside record

theorem nodup_cons_others (ids : (journal.records.map Record.id).Nodup)
    (named : record.id = id) : ((record :: journal.others id).map Record.id).Nodup := by
  rw [List.map_cons, List.nodup_cons]
  refine ⟨fun member => ?_, ids.sublist (List.filter_sublist.map _)⟩
  obtain ⟨other, inside, same⟩ := List.mem_map.mp member
  have different := (List.mem_filter.mp inside).2
  simp [same, named] at different

theorem find_store (ids : (journal.records.map Record.id).Nodup) (named : record.id = id)
    (other : Text) :
    (journal.store (journal.position id) record).find other =
      if other = id then some record else journal.find other := by
  have perm := store_perm ids id record
  have stored : ((journal.store (journal.position id) record).records.map Record.id).Nodup :=
    (perm.map Record.id).nodup_iff.mpr (nodup_cons_others ids named)
  ext found
  rw [find_eq_some stored, perm.mem_iff, List.mem_cons, others, List.mem_filter]
  split
  next here =>
      subst here
      constructor
      · rintro ⟨rfl | ⟨inside, different⟩, same⟩
        · rfl
        · simp [same] at different
      · intro same
        obtain rfl := Option.some.inj same
        exact ⟨.inl rfl, named⟩
  next elsewhere =>
      rw [find_eq_some ids]
      constructor
      · rintro ⟨rfl | ⟨inside, different⟩, same⟩
        · exact absurd (same.symm.trans named) elsewhere
        · exact ⟨inside, same⟩
      · rintro ⟨inside, same⟩
        exact ⟨.inr ⟨inside, by simp [same, elsewhere]⟩, same⟩

theorem find_others (ids : (journal.records.map Record.id).Nodup) (other : Text) :
    ({ journal with records := journal.others id } : Journal).find other =
      if other = id then none else journal.find other := by
  have sub : ((journal.others id).map Record.id).Nodup :=
    ids.sublist (List.filter_sublist.map _)
  ext found
  rw [find_eq_some sub, others, List.mem_filter]
  split
  next here =>
      subst here
      refine iff_of_false ?_ (by simp)
      rintro ⟨⟨inside, different⟩, same⟩
      simp [same] at different
  next elsewhere =>
      rw [find_eq_some ids]
      constructor
      · rintro ⟨⟨inside, -⟩, same⟩
        exact ⟨inside, same⟩
      · rintro ⟨inside, same⟩
        exact ⟨⟨inside, by simp [same, elsewhere]⟩, same⟩

end Journal

/-! ## What a call can do -/

namespace SwapWallet

variable {wallet : SwapWallet} {id payload : Text} {expected revision : UInt64}

/-- The revision under which an id is stored, or zero. -/
def currentRevision (wallet : SwapWallet) (id : Text) : UInt64 :=
  (wallet.journal.find id).elim 0 Record.revision

/-- What a put asks for. -/
structure Admits (wallet : SwapWallet) (id : Text) (expected : UInt64) (payload : Text)
    (revision : UInt64) : Prop where
  memory : wallet.persist = false
  valid : wallet.journal.Valid
  record : Record.Valid ⟨id, revision, payload⟩
  current : wallet.currentRevision id = expected
  next : revision.toNat = expected.toNat + 1
  reserved : wallet.journal.find id ≠ none ∨ wallet.journal.records.length < maxReservedRecords
  size : payloadBytes (wallet.journal.others id) + payload.length ≤ maxJournalBytes

theorem ne_zero_of_next {before next : UInt64} (sum : next.toNat = before.toNat + 1) :
    next ≠ 0 := by
  rintro rfl
  cases sum

theorem admit_eq_ok {index : Option Nat} :
    wallet.admitted id expected payload = .ok (index, revision) ↔
      wallet.Admits id expected payload revision ∧ wallet.journal.position id = index := by
  have stored : (wallet.journal.position id).isSome = true ↔ wallet.journal.find id ≠ none := by
    rw [ne_eq, ← Journal.position_eq_none]
    exact Option.isSome_iff_ne_none
  simp only [admitted, Guard.bind_eq_ok, Guard.refuse_eq_ok, Guard.need_eq_ok, exists_const,
    Decidable.not_not, not_lt, not_or, Journal.find_eq_position, Journal.validate_eq_ok,
    Machine.checkedAdd_eq_some, stored, Except.ok.injEq, Prod.mk.injEq]
  constructor
  · rintro ⟨memory, named, ⟨filled, small⟩, valid, current, next, sum, room, size, index, rfl⟩
    rw [current] at sum
    refine ⟨⟨by simpa using memory, valid, ⟨named, ne_zero_of_next sum, filled, small⟩, current,
      sum, ?_, size⟩, index⟩
    by_contra full
    rw [not_or, not_ne_iff, not_lt] at full
    exact room full
  · rintro ⟨⟨memory, valid, ⟨named, -, filled, small⟩, current, next, reserved, size⟩, index⟩
    refine ⟨by simp [memory], named, ⟨filled, small⟩, valid, current, revision, ?_, ?_, size,
      index, rfl⟩
    · rw [show (wallet.journal.find id).elim 0 Record.revision = expected from current]
      exact next
    · rintro ⟨absent, full⟩
      exact reserved.elim (fun found => found absent) fun room => absurd room full.not_gt

theorem retirable_eq_ok {index : Nat} :
    wallet.retirable id expected = .ok index ↔
      wallet.persist = false ∧ validId id = true ∧ wallet.journal.position id = some index ∧
        ∃ record, wallet.journal.find id = some record ∧ record.revision = expected := by
  simp only [retirable, Guard.bind_eq_ok, Guard.refuse_eq_ok, Guard.need_eq_ok, exists_const,
    Decidable.not_not, Except.ok.injEq]
  constructor
  · rintro ⟨memory, named, position, found, current, rfl⟩
    have read := @Journal.find_eq_position wallet.journal id
    rw [found, Option.bind_some] at read
    obtain ⟨record, stored, revision⟩ := Option.map_eq_some_iff.mp current
    exact ⟨by simpa using memory, named, found, record, read.symm.trans stored, revision⟩
  · rintro ⟨memory, named, found, record, stored, revision⟩
    have read := @Journal.find_eq_position wallet.journal id
    rw [found, Option.bind_some, stored] at read
    exact ⟨by simp [memory], named, index, found, by rw [read, Option.map_some, revision], rfl⟩

/-- What a put can do. -/
inductive Put (wallet : SwapWallet) (id : Text) (expected : UInt64) (payload : Text) :
    Except SwapError UInt64 × SwapWallet → Prop where
  | refused (error : SwapError) : Put wallet id expected payload (.error error, wallet)
  | stored (revision : UInt64) (admits : wallet.Admits id expected payload revision) :
      Put wallet id expected payload (.ok revision, { wallet with
        journal := wallet.journal.store (wallet.journal.position id) ⟨id, revision, payload⟩ })

theorem put (wallet : SwapWallet) (id : Text) (expected : UInt64) (payload : Text) :
    Put wallet id expected payload (wallet.putSwapCheckpoint id expected payload) := by
  rw [putSwapCheckpoint]
  cases checked : wallet.admitted id expected payload with
  | error error => exact .refused error
  | ok place =>
      obtain ⟨admits, position⟩ := admit_eq_ok.mp checked
      simp only
      rw [← position]
      exact .stored place.2 admits

/-- What a retirement can do. -/
inductive Retire (wallet : SwapWallet) (id : Text) (expected : UInt64) :
    Except SwapError Unit × SwapWallet → Prop where
  | refused (error : SwapError) : Retire wallet id expected (.error error, wallet)
  | removed (record : Record) (found : wallet.journal.find id = some record)
      (current : record.revision = expected) :
      Retire wallet id expected (.ok (), { wallet with
        journal := { wallet.journal with records := wallet.journal.others id } })

theorem retire (ids : (wallet.journal.records.map Record.id).Nodup) (id : Text)
    (expected : UInt64) :
    Retire wallet id expected (wallet.retireSwapCheckpoint id expected) := by
  rw [retireSwapCheckpoint]
  cases checked : wallet.retirable id expected with
  | error error => exact .refused error
  | ok index =>
      obtain ⟨-, -, position, record, found, current⟩ := retirable_eq_ok.mp checked
      simp only
      rw [Journal.eraseIdx_position ids position]
      exact .removed record found current

/-! ## Checkpoints -/

/-- The record that a put replaces has the revision that was expected. -/
theorem Admits.revision_eq (admits : wallet.Admits id expected payload revision)
    {old : UInt64 × Text} (found : wallet.swapCheckpoint id = some old) : old.1 = expected := by
  obtain ⟨record, stored, rfl⟩ := Option.map_eq_some_iff.mp found
  have current := admits.current
  rwa [currentRevision, stored, Option.elim_some] at current

theorem Admits.advances (admits : wallet.Admits id expected payload revision)
    {old : UInt64 × Text} (found : wallet.swapCheckpoint id = some old) :
    old.1.toNat < revision.toNat := by
  rw [admits.next, admits.revision_eq found]
  exact Nat.lt_succ_self _

/-- After a put the record is what was written, and the others are as they were. -/
theorem Admits.swapCheckpoint (admits : wallet.Admits id expected payload revision) :
    SwapWallet.swapCheckpoint { wallet with
        journal := wallet.journal.store (wallet.journal.position id) ⟨id, revision, payload⟩ }
      id = some (revision, payload) ∧
    ∀ other, other ≠ id → SwapWallet.swapCheckpoint { wallet with
        journal := wallet.journal.store (wallet.journal.position id) ⟨id, revision, payload⟩ }
      other = wallet.swapCheckpoint other := by
  have found := @Journal.find_store wallet.journal id ⟨id, revision, payload⟩ admits.valid.ids rfl
  constructor
  · simp only [SwapWallet.swapCheckpoint, found, if_true, Option.map_some]
  · intro other different
    simp only [SwapWallet.swapCheckpoint, found, if_neg different]

/-- After a retirement the record is gone, and the others are as they were. -/
theorem swapCheckpoint_without (ids : (wallet.journal.records.map Record.id).Nodup) (id : Text) :
    SwapWallet.swapCheckpoint { wallet with
        journal := { wallet.journal with records := wallet.journal.others id } } id = none ∧
    ∀ other, other ≠ id → SwapWallet.swapCheckpoint { wallet with
        journal := { wallet.journal with records := wallet.journal.others id } }
      other = wallet.swapCheckpoint other := by
  have found := @Journal.find_others wallet.journal id ids
  constructor
  · simp only [SwapWallet.swapCheckpoint, found, if_true, Option.map_none]
  · intro other different
    simp only [SwapWallet.swapCheckpoint, found, if_neg different]

/-! ## Admission -/

/-- A journal of this writer: valid, and every record has its maximum size reserved. -/
structure Admitted (wallet : SwapWallet) : Prop where
  valid : wallet.journal.Valid
  reserved : wallet.journal.records.length ≤ maxReservedRecords

theorem payloadBytes_cons (record : Record) (records : List Record) :
    payloadBytes (record :: records) = record.payload.length + payloadBytes records :=
  List.sum_cons

theorem payloadBytes_le {records : List Record} (valid : ∀ record ∈ records, record.Valid) :
    payloadBytes records ≤ records.length * maxRecordBytes := by
  have bound := List.sum_le_card_nsmul (records.map fun record => record.payload.length)
    maxRecordBytes (by
      intro length member
      obtain ⟨record, inside, rfl⟩ := List.mem_map.mp member
      exact (valid record inside).small)
  rwa [List.length_map, smul_eq_mul] at bound

theorem length_others_lt {record : Record} (found : wallet.journal.find id = some record) :
    (wallet.journal.others id).length < wallet.journal.records.length := by
  refine List.length_filter_lt_length_iff_exists.mpr ⟨record, List.mem_of_find?_eq_some found, ?_⟩
  simpa using List.find?_some found

/-- A put keeps the journal admitted. -/
theorem Admits.admitted (admits : wallet.Admits id expected payload revision)
    (admitted : wallet.Admitted) :
    Admitted { wallet with
      journal := wallet.journal.store (wallet.journal.position id) ⟨id, revision, payload⟩ } := by
  have valid := admitted.valid
  have perm := Journal.store_perm valid.ids id ⟨id, revision, payload⟩
  have length : (wallet.journal.others id).length + 1 ≤ maxReservedRecords := by
    cases found : wallet.journal.find id with
    | some record => exact (length_others_lt found).trans_le admitted.reserved
    | none =>
        have room := admits.reserved.resolve_left fun some => some found
        exact (Nat.succ_le_succ (List.length_filter_le _ _)).trans room
  have reserved : (wallet.journal.store (wallet.journal.position id)
      ⟨id, revision, payload⟩).records.length ≤ maxReservedRecords := by
    rw [perm.length_eq, List.length_cons]
    exact length
  refine ⟨⟨?_, reserved.trans (by decide), ?_, ?_, ?_⟩, reserved⟩
  · have format := valid.format
    cases wallet.journal.position id with
    | none => exact format
    | some index => exact format
  · intro record member
    rcases List.mem_cons.mp (perm.mem_iff.mp member) with rfl | other
    · exact admits.record
    · exact valid.records record (List.mem_filter.mp other).1
  · exact (perm.map Record.id).nodup_iff.mpr (Journal.nodup_cons_others valid.ids rfl)
  · have sum : payloadBytes (wallet.journal.store (wallet.journal.position id)
        ⟨id, revision, payload⟩).records =
        payloadBytes (⟨id, revision, payload⟩ :: wallet.journal.others id) :=
      (perm.map fun record : Record => record.payload.length).sum_eq
    rw [sum, payloadBytes_cons, Nat.add_comm]
    exact admits.size

/-- So does a retirement. -/
theorem Admitted.without (admitted : wallet.Admitted) (id : Text) :
    Admitted { wallet with
      journal := { wallet.journal with records := wallet.journal.others id } } where
  valid := by
    have valid := admitted.valid
    refine ⟨valid.format, (List.length_filter_le _ _).trans valid.few,
      fun record member => valid.records record (List.mem_filter.mp member).1,
      valid.ids.sublist (List.filter_sublist.map _), ?_⟩
    exact (List.Sublist.sum_le_sum (List.filter_sublist.map _)
      fun _ _ => Nat.zero_le _).trans valid.size
  reserved := (List.length_filter_le _ _).trans admitted.reserved

/-- Every record of an admitted journal can grow to any size a record may have. -/
theorem Admitted.grows (admitted : wallet.Admitted) (memory : wallet.persist = false)
    {record : Record} (stored : record ∈ wallet.journal.records)
    (unspent : record.revision.toNat < 2 ^ 64 - 1) (filled : payload ≠ [])
    (small : payload.length ≤ maxRecordBytes) :
    (wallet.putSwapCheckpoint record.id record.revision payload).1 =
      .ok (record.revision + 1) := by
  have valid := admitted.valid
  have found : wallet.journal.find record.id = some record :=
    (Journal.find_eq_some valid.ids).mpr ⟨stored, rfl⟩
  have next : (record.revision + 1).toNat = record.revision.toNat + 1 := by
    rw [UInt64.toNat_add]
    exact Nat.mod_eq_of_lt (Nat.add_lt_of_lt_sub unspent)
  have size : payloadBytes (wallet.journal.others record.id) + payload.length ≤
      maxJournalBytes := by
    have others := @payloadBytes_le (wallet.journal.others record.id)
      fun other member => valid.records other (List.mem_filter.mp member).1
    have fewer : (wallet.journal.others record.id).length < maxReservedRecords :=
      (length_others_lt found).trans_le admitted.reserved
    calc
      payloadBytes (wallet.journal.others record.id) + payload.length
        ≤ (wallet.journal.others record.id).length * maxRecordBytes + maxRecordBytes :=
          Nat.add_le_add others small
      _ = ((wallet.journal.others record.id).length + 1) * maxRecordBytes :=
          (Nat.succ_mul _ _).symm
      _ ≤ maxReservedRecords * maxRecordBytes := Nat.mul_le_mul_right _ fewer
      _ ≤ maxJournalBytes := by decide
  have admits : wallet.Admits record.id record.revision payload (record.revision + 1) :=
    { memory, valid, next, size
      record := ⟨(valid.records record stored).named, ne_zero_of_next next, filled, small⟩
      current := by rw [currentRevision, found, Option.elim_some]
      reserved := .inl (by simp [found]) }
  rw [putSwapCheckpoint, admit_eq_ok.mpr ⟨admits, rfl⟩]

end SwapWallet

end Swap

end Nightfall
