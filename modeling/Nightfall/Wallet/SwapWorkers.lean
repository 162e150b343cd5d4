import Nightfall.Library.GuardedRun
import Nightfall.Library.Sightings
import Nightfall.Wallet.SwapJournal

/-!
# Workers on one journal

Any number of workers read records and write them back under the revision they read.  A
journal that started empty stays valid, and its records can always grow.  A worker only
overwrites what it read, as long as the record was not created again since.
-/

namespace Nightfall

namespace Swap

variable {Worker : Type}

/-- What a worker does. -/
inductive SwapEvent (Worker : Type) where
  | read (worker : Worker) (id : Text)
  | put (worker : Worker) (id : Text) (expectedRevision : UInt64) (payload : Text)
  | retire (worker : Worker) (id : Text) (expectedRevision : UInt64)

/-- Who does it. -/
def SwapEvent.worker : SwapEvent Worker → Worker
  | .read worker _ => worker
  | .put worker _ _ _ => worker
  | .retire worker _ _ => worker

/-- The wallet that the workers share, and what each of them read.  Whoever wrote a record
knows it as if it had read it. -/
structure Shared (Worker : Type) where
  wallet : SwapWallet
  log : Sightings.Log Worker Text (UInt64 × Text)

namespace Shared

/-- A wallet with an empty journal. -/
def new (persist : Bool) : Shared Worker :=
  ⟨⟨persist, .default⟩, .empty⟩

/-- The worker wrote the record, which may have been new. -/
def wrote (shared : Shared Worker) (worker : Worker) (id : Text) (wallet : SwapWallet) :
    Shared Worker :=
  let log := if shared.wallet.swapCheckpoint id = none then shared.log.create id else shared.log
  ⟨wallet, log.note worker id (wallet.swapCheckpoint id)⟩

def step (shared : Shared Worker) : SwapEvent Worker → Shared Worker
  | .read worker id =>
      { shared with log := shared.log.note worker id (shared.wallet.swapCheckpoint id) }
  | .put worker id expectedRevision payload =>
      match shared.wallet.putSwapCheckpoint id expectedRevision payload with
      | (.error _, wallet) => { shared with wallet }
      | (.ok _, wallet) => shared.wrote worker id wallet
  | .retire _ id expectedRevision =>
      { shared with wallet := (shared.wallet.retireSwapCheckpoint id expectedRevision).2 }

/-- Does the call fail? -/
def fails (shared : Shared Worker) : SwapEvent Worker → Bool
  | .read _ _ => false
  | .put _ id expectedRevision payload =>
      !(shared.wallet.putSwapCheckpoint id expectedRevision payload).1.isOk
  | .retire _ id expectedRevision =>
      !(shared.wallet.retireSwapCheckpoint id expectedRevision).1.isOk

end Shared

/-- The revision that a sighting shows, zero for no record. -/
def revisionOf (state : Option (UInt64 × Text)) : UInt64 :=
  state.elim 0 Prod.fst

/-- The journal passes its own check, and every record can take any payload that a record
may have. -/
structure SwapWallet.Sound (wallet : SwapWallet) : Prop where
  valid : wallet.journal.validate = .ok ()
  grows : ∀ record ∈ wallet.journal.records, ∀ payload : Text, payload ≠ [] →
    payload.length ≤ maxRecordBytes → record.revision.toNat < 2 ^ 64 - 1 →
      (wallet.putSwapCheckpoint record.id record.revision payload).1 = .ok (record.revision + 1)

namespace Shared

/-- The worker read this revision of the record at some time. -/
def ReadRevision (shared : Shared Worker) (worker : Worker) (id : Text) (revision : UInt64) :
    Prop :=
  ∃ sighting ∈ shared.log.seen, sighting.worker = worker ∧ sighting.key = id ∧
    revisionOf sighting.state = revision

/-- The worker read this revision of the record since the last creation of the id. -/
def ReadRecently (shared : Shared Worker) (worker : Worker) (id : Text) (revision : UInt64) :
    Prop :=
  ∃ sighting ∈ shared.log.seen, sighting.worker = worker ∧ sighting.key = id ∧
    revisionOf sighting.state = revision ∧ sighting.creation = shared.log.creations id

/-- The worker read this state of the record. -/
def HasRead (shared : Shared Worker) (worker : Worker) (id : Text) (state : UInt64 × Text) :
    Prop :=
  ∃ sighting ∈ shared.log.seen, sighting.worker = worker ∧ sighting.key = id ∧
    sighting.state = some state

/-- The call uses a revision that the worker read. -/
def Honest (shared : Shared Worker) : SwapEvent Worker → Prop
  | .read _ _ => True
  | .put worker id expectedRevision _ => shared.ReadRevision worker id expectedRevision
  | .retire worker id expectedRevision => shared.ReadRevision worker id expectedRevision

instance Honest.decidable [DecidableEq Worker] (shared : Shared Worker) :
    (event : SwapEvent Worker) → Decidable (shared.Honest event)
  | .read _ _ => isTrue trivial
  | .put _ _ _ _ => inferInstanceAs (Decidable (∃ sighting ∈ shared.log.seen, _))
  | .retire _ _ _ => inferInstanceAs (Decidable (∃ sighting ∈ shared.log.seen, _))

instance HasRead.decidable [DecidableEq Worker] (shared : Shared Worker) (worker : Worker)
    (id : Text) (state : UInt64 × Text) : Decidable (shared.HasRead worker id state) :=
  inferInstanceAs (Decidable (∃ sighting ∈ shared.log.seen, _))

/-- If there is a record of the revision that the call uses, the worker read that revision
after the record was created. -/
def Recent (shared : Shared Worker) : SwapEvent Worker → Prop
  | .read _ _ => True
  | .put worker id expectedRevision _ => ∀ payload,
      shared.wallet.swapCheckpoint id = some (expectedRevision, payload) →
        shared.ReadRecently worker id expectedRevision
  | .retire worker id expectedRevision => ∀ payload,
      shared.wallet.swapCheckpoint id = some (expectedRevision, payload) →
        shared.ReadRecently worker id expectedRevision

/-- A failing call changes nothing, and a worker replaces or deletes only what it read. -/
structure Safe (shared : Shared Worker) (event : SwapEvent Worker) : Prop where
  failing : shared.fails event = true → (shared.step event).wallet = shared.wallet
  overwrites : ∀ id state, shared.wallet.swapCheckpoint id = some state →
    (shared.step event).wallet.swapCheckpoint id ≠ some state →
      shared.HasRead event.worker id state

/-! ## Every run -/

variable {shared : Shared Worker}

/-- The invariant of the shared journal. -/
structure Consistent (shared : Shared Worker) : Prop where
  admitted : shared.wallet.Admitted
  plain : shared.wallet.persist = true → shared.wallet.journal.records = []
  agrees : Sightings.Log.Agrees (fun state : UInt64 × Text => state.1.toNat) shared.log
    shared.wallet.swapCheckpoint

theorem consistent_new (persist : Bool) : (new persist : Shared Worker).Consistent where
  admitted :=
    { valid :=
        { format := rfl
          few := Nat.zero_le _
          records := fun _ none => by cases none
          ids := List.nodup_nil
          size := Nat.zero_le _ }
      reserved := Nat.zero_le _ }
  plain _ := rfl
  agrees := Sightings.Log.agrees_empty _

/-- No step breaks the invariant, whatever revision it uses. -/
theorem Consistent.step (consistent : shared.Consistent) (event : SwapEvent Worker) :
    (shared.step event).Consistent := by
  obtain ⟨admitted, plain, agrees⟩ := consistent
  have ids := admitted.valid.ids
  cases event with
  | read worker id => exact ⟨admitted, plain, agrees.note worker id⟩
  | put worker id expected payload =>
      have outcome := SwapWallet.put shared.wallet id expected payload
      simp only [Shared.step]
      generalize shared.wallet.putSwapCheckpoint id expected payload = result at outcome
      cases outcome with
      | refused error => exact ⟨admitted, plain, agrees⟩
      | stored revision admits =>
          obtain ⟨here, others⟩ := admits.swapCheckpoint
          refine ⟨admits.admitted admitted, fun text => ?_, ?_⟩
          · have memory := admits.memory
            exact absurd text (by simpa [wrote] using memory)
          · simp only [wrote]
            cases found : shared.wallet.swapCheckpoint id with
            | none =>
                rw [if_pos rfl]
                exact (agrees.create others).note worker id
            | some old =>
                rw [if_neg (by simp)]
                exact (agrees.advance found (admits.advances found) here others).note worker id
  | retire worker id expected =>
      have outcome := SwapWallet.retire ids id expected
      simp only [Shared.step]
      generalize shared.wallet.retireSwapCheckpoint id expected = result at outcome
      cases outcome with
      | refused error => exact ⟨admitted, plain, agrees⟩
      | removed record found current =>
          obtain ⟨gone, others⟩ := SwapWallet.swapCheckpoint_without ids id
          refine ⟨admitted.without id, fun text => ?_, agrees.remove gone others⟩
          have none : shared.wallet.journal.records = [] := plain text
          simp only [Journal.others, none, List.filter_nil]

theorem consistent_run (persist : Bool) (events : List (SwapEvent Worker)) :
    (GuardedRun.run step (new persist) events).Consistent :=
  (@GuardedRun.Along.of_forall_mem _ _ step (fun _ => True) _ _ fun _ _ => trivial).invariant
    (consistent_new persist) fun _ event consistent _ => consistent.step event

theorem Consistent.sound (consistent : shared.Consistent) : shared.wallet.Sound where
  valid := Journal.validate_eq_ok.mpr consistent.admitted.valid
  grows record stored payload filled small unspent := by
    have memory : shared.wallet.persist = false := by
      by_contra text
      rw [consistent.plain (by simpa using text)] at stored
      cases stored
    exact consistent.admitted.grows memory stored unspent filled small

/-- A recent reading of the stored revision is a reading of the stored record. -/
theorem Consistent.hasRead (consistent : shared.Consistent) {worker : Worker} {id : Text}
    {state : UInt64 × Text} (stored : shared.wallet.swapCheckpoint id = some state)
    (recent : shared.ReadRecently worker id state.1) : shared.HasRead worker id state := by
  obtain ⟨sighting, member, who, here, revision, creation⟩ := recent
  refine ⟨sighting, member, who, here, ?_⟩
  subst here
  cases read : sighting.state with
  | some before =>
      rw [read] at revision
      rw [← read]
      exact consistent.agrees.state_eq member creation read stored (congrArg _ revision)
  | none =>
      -- A record never has the revision that stands for no record.
      obtain ⟨record, found, rfl⟩ := Option.map_eq_some_iff.mp stored
      rw [read] at revision
      have valid := consistent.admitted.valid.records record (List.mem_of_find?_eq_some found)
      exact absurd revision.symm valid.revision

theorem step_put_wallet (worker : Worker) (id : Text) (expected : UInt64) (payload : Text) :
    (shared.step (.put worker id expected payload)).wallet =
      (shared.wallet.putSwapCheckpoint id expected payload).2 := by
  simp only [Shared.step]
  split
  next outcome => rw [outcome]
  next outcome => rw [outcome]; rfl

/-- A recent call replaces or deletes only what its worker read. -/
theorem Consistent.safe (consistent : shared.Consistent) {event : SwapEvent Worker}
    (recent : shared.Recent event) : shared.Safe event := by
  have ids := consistent.admitted.valid.ids
  cases event with
  | read worker id =>
      exact ⟨fun _ => rfl, fun _ _ stored changed => absurd stored changed⟩
  | put worker id expected payload =>
      have outcome := SwapWallet.put shared.wallet id expected payload
      have wallet := @step_put_wallet Worker shared worker id expected payload
      have fails : shared.fails (.put worker id expected payload) =
          !(shared.wallet.putSwapCheckpoint id expected payload).1.isOk := rfl
      generalize shared.wallet.putSwapCheckpoint id expected payload = result
        at outcome wallet fails
      cases outcome with
      | refused error =>
          exact ⟨fun _ => wallet, fun _ _ stored changed => absurd (wallet ▸ stored) changed⟩
      | stored revision admits =>
          refine ⟨fun failed => absurd (fails.symm.trans failed) Bool.false_ne_true, ?_⟩
          intro other state stored changed
          obtain ⟨here, others⟩ := admits.swapCheckpoint
          by_cases same : other = id
          · subst same
            have current := admits.revision_eq stored
            refine consistent.hasRead stored ?_
            rw [current]
            exact recent state.2 (by rw [stored, ← current])
          · rw [wallet, others other same] at changed
            exact absurd stored changed
  | retire worker id expected =>
      have outcome := SwapWallet.retire ids id expected
      have wallet : (shared.step (.retire worker id expected)).wallet =
          (shared.wallet.retireSwapCheckpoint id expected).2 := rfl
      have fails : shared.fails (.retire worker id expected) =
          !(shared.wallet.retireSwapCheckpoint id expected).1.isOk := rfl
      generalize shared.wallet.retireSwapCheckpoint id expected = result
        at outcome wallet fails
      cases outcome with
      | refused error =>
          exact ⟨fun _ => wallet, fun _ _ stored changed => absurd (wallet ▸ stored) changed⟩
      | removed record found current =>
          refine ⟨fun failed => absurd (fails.symm.trans failed) Bool.false_ne_true, ?_⟩
          intro other state stored changed
          obtain ⟨gone, others⟩ := SwapWallet.swapCheckpoint_without ids id
          by_cases same : other = id
          · subst same
            have read : shared.wallet.swapCheckpoint other = some (expected, record.payload) := by
              rw [SwapWallet.swapCheckpoint, found, Option.map_some, current]
            obtain rfl := Option.some.inj (stored.symm.trans read)
            exact consistent.hasRead stored (recent _ stored)
          · rw [wallet, others other same] at changed
            exact absurd stored changed

/-- In a journal that started empty `validate` holds, and every record can grow at its revision
to any payload that a record may have.  No failing call changes it, and where every call uses a
revision that its worker read since the record was created, no call replaces or deletes a record
state that its worker had not read. -/
theorem swap_journal_safe (persist : Bool) {events : List (SwapEvent Worker)}
    (recent : GuardedRun.Along step Recent (new persist) events) :
    GuardedRun.Along step Safe (new persist) events ∧
      ∀ done later, events = done ++ later →
        (GuardedRun.run step (new persist) done).wallet.Sound := by
  constructor
  · exact recent.imp_of_invariant (consistent_new persist)
      (fun _ event consistent _ => consistent.step event)
      fun _ _ consistent latest => consistent.safe latest
  · intro done later split
    exact (consistent_run persist done).sound

end Shared

/-! ## Samples -/

namespace Sample

def id : Text := ascii "00000000-0000-4000-8000-000000000001"

/-- One worker makes a record and writes it again. -/
def updates : List (SwapEvent Nat) :=
  [.read 1 id, .put 1 id 0 (ascii "first"), .put 1 id 1 (ascii "second")]

theorem updates_recent : GuardedRun.Along Shared.step Shared.Recent (.new false) updates := by
  have absent : (Shared.step (.new false) (SwapEvent.read 1 id)).wallet.swapCheckpoint id =
    none := by decide
  refine ⟨trivial, fun payload found => ?_, fun payload _ => ?_, trivial⟩
  · rw [absent] at found
    cases found
  · exact ⟨⟨1, id, 1, some (1, ascii "first")⟩, by decide, rfl, rfl, rfl, by decide⟩

theorem swap_journal_safe_updates :
    GuardedRun.Along Shared.step Shared.Safe (.new false) updates :=
  (Shared.swap_journal_safe false updates_recent).1

/-- Worker 1 reads a record, which worker 2 retires and creates again. -/
def recreation : List (SwapEvent Nat) :=
  [.read 1 id, .put 1 id 0 (ascii "first"), .read 2 id, .retire 2 id 1, .read 2 id,
    .put 2 id 0 (ascii "second")]

/-- Worker 1 then writes under the revision it read before, and replaces a record that it
never read. -/
theorem recreated_record_is_replaced :
    GuardedRun.Along Shared.step Shared.Honest (.new false)
      (recreation ++ [.put 1 id 1 (ascii "third")]) ∧
    (GuardedRun.run Shared.step (.new false) recreation).wallet.swapCheckpoint id =
      some (1, ascii "second") ∧
    ¬(GuardedRun.run Shared.step (.new false) recreation).HasRead 1 id (1, ascii "second") ∧
    (GuardedRun.run Shared.step (.new false)
      (recreation ++ [.put 1 id 1 (ascii "third")])).wallet.swapCheckpoint id =
        some (2, ascii "third") := by
  decide +kernel

end Sample

end Swap

end Nightfall
