import Nightfall.Library.Machine
import Nightfall.Runtime.Framing
import Nightfall.Runtime.Ibd

/-!
# Asking a peer for blocks

A peer answers a request with whatever it likes.  Unrelated messages and lines that are no
message are skipped, up to a limit, and a batch is taken as a whole or not at all.
-/

namespace Nightfall

open Machine (checkedAdd)
open Utf8 (Text)

/-! ## Errors of a read -/

namespace WireError

/-- Is the kind of the error `InvalidData`? -/
def isInvalidData : WireError → Bool
  | peerClosed => false
  | io => false
  | _ => true

/-- What the error says. -/
def message : WireError → Text
  | exceeds => ascii "peer message exceeds 4194304 bytes"
  | peerClosed => ascii "peer closed"
  | truncated => ascii "message truncated or oversized"
  | nonUtf8 => ascii "non-utf8 message"
  | parse message => message
  | io => ascii "connection lost"
  | singleBlock => ascii "single block exceeds the P2P message limit"

end WireError

/-- A complete line that is not a message we understand. -/
def isUnparseableLine (error : WireError) : Bool :=
  error.isInvalidData &&
    !(decide (ascii "exceeds" <:+: error.message) || decide (ascii "truncated" <:+: error.message)
      || decide (ascii "non-utf8" <:+: error.message))

inductive BlocksError where
  | wire (error : WireError)
  | other (message : Text)
  | expectedBlocks
  | tooMany
  | heightOverflow
  | unexpectedHeight (height expected : UInt64)
  deriving DecidableEq

/-! ## The request -/

/-- Most unrelated messages tolerated while waiting for one reply. -/
def maxInterleaved : Nat := 64

/-- Both sides of a connection, and what was read off it so far. -/
structure Conversation where
  sink : Sink
  chunks : List Bytes
  read : List (Except WireError PeerMsg)

/-- Read messages until there is a reply, or no slot is left. -/
def awaitReply (serde : WireSerde) :
    Nat → Conversation → Except BlocksError (List Block) × Conversation
  | 0, talk => (.error .expectedBlocks, talk)
  | slots + 1, talk =>
      let next := readMsg serde talk.chunks
      let talk := { talk with chunks := next.2, read := talk.read ++ [next.1] }
      match next.1 with
      | .ok (.blocks blocks) => (.ok blocks, talk)
      | .ok (.error message) => (.error (.other message), talk)
      | .ok _ => awaitReply serde slots talk
      | .error error =>
          if isUnparseableLine error then awaitReply serde slots talk
          else (.error (.wire error), talk)

/-- Each block stands at the height at which it was asked for. -/
def checkHeights (nextHeight : UInt64) (batch : List Block) : Except BlocksError Unit :=
  Guard.each (fun entry : Block × Nat => do
    let expected ← Guard.need (checkedAdd nextHeight (UInt64.ofNat entry.2)) .heightOverflow
    Guard.refuse (entry.1.header.height ≠ expected)
      (.unexpectedHeight entry.1.header.height expected)) batch.zipIdx

/-- The loop over pages, from what was received so far. -/
def requestFrom (serde : WireSerde) (target : Nat) (all : List Block) (nextHeight : UInt64)
    (talk : Conversation) : Except BlocksError (List Block) × Conversation :=
  if all.length < target then
    let remaining := target - all.length
    match writeMsg serde talk.sink (.getBlocks nextHeight remaining) with
    | (.error error, sink) => (.error (.wire error), { talk with sink })
    | (.ok (), sink) =>
        match awaitReply serde maxInterleaved { talk with sink } with
        | (.error error, talk) => (.error error, talk)
        | (.ok batch, talk) =>
            if _empty : batch = [] then (.ok all, talk)
            else if batch.length > remaining then (.error .tooMany, talk)
            else
              match checkHeights nextHeight batch with
              | .error error => (.error error, talk)
              | .ok () =>
                  if (all ++ batch).length ≥ target then (.ok (all ++ batch), talk)
                  else
                    match checkedAdd nextHeight (UInt64.ofNat batch.length) with
                    | none => (.ok (all ++ batch), talk)
                    | some nextHeight => requestFrom serde target (all ++ batch) nextHeight talk
  else (.ok all, talk)
termination_by target - all.length
decreasing_by
  have some := List.length_pos_iff.mpr _empty
  rw [List.length_append]
  omega

def requestBlocks (serde : WireSerde) (fromHeight : UInt64) (limit : Nat)
    (sink : Sink) (chunks : List Bytes) : Except BlocksError (List Block) × Conversation :=
  let target := min limit maxBlocksPerRequest
  if target = 0 then (.ok [], ⟨sink, chunks, []⟩)
  else requestFrom serde target [] fromHeight ⟨sink, chunks, []⟩

/-! ## What is read -/

section Reading

variable {serde : WireSerde} {start : List Bytes}

/-- The blocks that a message brings, if it is a reply. -/
def batchOf : Except WireError PeerMsg → List Block
  | .ok (.blocks blocks) => blocks
  | _ => []

/-- The messages read so far came off the stream one after the other. -/
def Conversation.ReadOff (serde : WireSerde) (start : List Bytes) (talk : Conversation) : Prop :=
  readMsgs serde talk.read.length start = (talk.read, talk.chunks)

theorem readMsgs_succ (serde : WireSerde) (count : Nat) (chunks : List Bytes) :
    readMsgs serde (count + 1) chunks =
      ((readMsgs serde count chunks).1 ++ [(readMsg serde (readMsgs serde count chunks).2).1],
        (readMsg serde (readMsgs serde count chunks).2).2) := by
  induction count generalizing chunks with
  | zero => rfl
  | succ count ih =>
      have later := ih (readMsg serde chunks).2
      rw [readMsgs, later]
      rfl

/-- One more message is read. -/
theorem Conversation.ReadOff.next {talk : Conversation} (known : talk.ReadOff serde start) :
    ReadOff serde start { talk with
      chunks := (readMsg serde talk.chunks).2
      read := talk.read ++ [(readMsg serde talk.chunks).1] } := by
  have sofar : readMsgs serde talk.read.length start = (talk.read, talk.chunks) := known
  unfold ReadOff
  rw [List.length_append, List.length_singleton, readMsgs_succ, sofar]

/-- A reply is one of the messages read, and every other one brings no block. -/
structure Replied (serde : WireSerde) (start : List Bytes) (slots : Nat) (talk : Conversation)
    (outcome : Except BlocksError (List Block) × Conversation) : Prop where
  readOff : outcome.2.ReadOff serde start
  reads : outcome.2.read.length ≤ talk.read.length + slots
  batch : ∀ batch, outcome.1 = .ok batch →
    outcome.2.read.flatMap batchOf = talk.read.flatMap batchOf ++ batch

theorem awaitReply_replied {slots : Nat} {talk : Conversation} (known : talk.ReadOff serde start) :
    Replied serde start slots talk (awaitReply serde slots talk) := by
  induction slots generalizing talk with
  | zero => exact ⟨known, le_rfl, fun _ none => by cases none⟩
  | succ slots ih =>
      have more := known.next
      have skipped (silent : batchOf (readMsg serde talk.chunks).1 = []) :
          Replied serde start (slots + 1) talk (awaitReply serde slots { talk with
            chunks := (readMsg serde talk.chunks).2
            read := talk.read ++ [(readMsg serde talk.chunks).1] }) := by
        obtain ⟨readOff, reads, batch⟩ := ih more
        simp only [List.length_append, List.length_singleton] at reads
        refine ⟨readOff, by omega, fun found same => ?_⟩
        rw [batch found same, List.flatMap_append, List.flatMap_singleton, silent,
          List.append_nil]
      have last (result : Except BlocksError (List Block))
          (brings : ∀ batch, result = .ok batch →
            batchOf (readMsg serde talk.chunks).1 = batch) :
          Replied serde start (slots + 1) talk (result, { talk with
            chunks := (readMsg serde talk.chunks).2
            read := talk.read ++ [(readMsg serde talk.chunks).1] }) := by
        refine ⟨more, ?_, fun found same => ?_⟩
        · simp only [List.length_append, List.length_singleton]
          omega
        · simp only [List.flatMap_append, List.flatMap_singleton, brings found same]
      simp only [awaitReply]
      split
      next blocks shape =>
        refine last _ fun batch same => ?_
        rw [shape, ← Except.ok.inj same]
        rfl
      next message shape =>
        refine last _ fun batch same => ?_
        cases same
      next other notBlocks notError shape =>
        refine skipped ?_
        rw [shape]
        cases other with
        | blocks found => exact absurd rfl (notBlocks found)
        | _ => rfl
      next error shape =>
        split
        · exact skipped (by rw [shape]; rfl)
        · refine last _ fun batch same => ?_
          cases same

end Reading

/-! ## What is accepted -/

/-- The heights of the blocks, in order. -/
def heights (blocks : List Block) : List Nat :=
  blocks.map fun block => block.header.height.toNat

theorem heights_of_checkHeights {nextHeight : UInt64} {batch : List Block}
    (short : batch.length ≤ maxBlocksPerRequest)
    (checked : checkHeights nextHeight batch = .ok ()) :
    heights batch = List.range' nextHeight.toNat batch.length := by
  rw [checkHeights, Guard.each_eq_ok] at checked
  refine List.ext_getElem (by simp [heights]) fun index inside within => ?_
  rw [heights, List.length_map] at inside
  have passed := checked (batch[index], index)
    (List.mk_mem_zipIdx_iff_getElem?.mpr (List.getElem?_eq_getElem inside))
  simp only [Guard.bind_eq_ok, Guard.need_eq_ok, Guard.refuse_eq_ok, Decidable.not_not,
    Machine.checkedAdd_eq_some] at passed
  obtain ⟨expected, sum, same⟩ := passed
  have small : index < 2 ^ 64 := by
    rw [maxBlocksPerRequest] at short
    omega
  rw [UInt64.toNat_ofNat_of_lt' small] at sum
  simp only [heights, List.getElem_map, List.getElem_range', same, sum, Nat.one_mul]

section Requests

variable {serde : WireSerde} {start : List Bytes} {fromHeight : UInt64} {target : Nat}

/-- Where the loop stands before a round. -/
structure Received (serde : WireSerde) (start : List Bytes) (fromHeight : UInt64) (target : Nat)
    (all : List Block) (nextHeight : UInt64) (talk : Conversation) : Prop where
  readOff : talk.ReadOff serde start
  batches : all = talk.read.flatMap batchOf
  consecutive : heights all = List.range' fromHeight.toNat all.length
  next : nextHeight.toNat = fromHeight.toNat + all.length
  inside : all.length ≤ target
  reads : talk.read.length ≤ maxInterleaved * all.length

/-- What a request may end in.  Blocks are the batches of all replies that were read, each
as a whole. -/
structure Answered (serde : WireSerde) (start : List Bytes) (fromHeight : UInt64) (target : Nat)
    (outcome : Except BlocksError (List Block) × Conversation) : Prop where
  readOff : outcome.2.ReadOff serde start
  reads : outcome.2.read.length ≤ maxInterleaved * target
  blocks : ∀ blocks, outcome.1 = .ok blocks →
    blocks = outcome.2.read.flatMap batchOf ∧ blocks.length ≤ target ∧
      heights blocks = List.range' fromHeight.toNat blocks.length

namespace Received

variable {all batch : List Block} {nextHeight : UInt64} {talk later : Conversation}

/-- A checked batch goes behind what was received. -/
theorem extend (received : Received serde start fromHeight target all nextHeight talk)
    (replied : Replied serde start maxInterleaved talk (.ok batch, later))
    (some : batch ≠ []) (short : batch.length ≤ target - all.length)
    (bounded : target ≤ maxBlocksPerRequest)
    (checked : checkHeights nextHeight batch = .ok ()) :
    Answered serde start fromHeight target (.ok (all ++ batch), later) ∧
      ∀ total, checkedAdd nextHeight (UInt64.ofNat batch.length) = .some total →
        Received serde start fromHeight target (all ++ batch) total later := by
  have count := List.length_pos_iff.mpr some
  have length : (all ++ batch).length = all.length + batch.length := List.length_append
  have inside : (all ++ batch).length ≤ target := by
    have before := received.inside
    omega
  have batches : all ++ batch = later.read.flatMap batchOf := by
    rw [replied.batch batch rfl, ← received.batches]
  have behind := heights_of_checkHeights (by omega) checked
  have consecutive : heights (all ++ batch) =
      List.range' fromHeight.toNat (all ++ batch).length := by
    rw [length, ← List.range'_append_1, ← received.next, ← behind, ← received.consecutive]
    exact List.map_append
  have reads : later.read.length ≤ maxInterleaved * (all ++ batch).length := by
    calc
      later.read.length ≤ talk.read.length + maxInterleaved := replied.reads
      _ ≤ maxInterleaved * all.length + maxInterleaved :=
        Nat.add_le_add_right received.reads _
      _ = maxInterleaved * (all.length + 1) := (Nat.mul_succ _ _).symm
      _ ≤ maxInterleaved * (all ++ batch).length := Nat.mul_le_mul_left _ (by omega)
  refine ⟨⟨replied.readOff, reads.trans (Nat.mul_le_mul_left _ inside), fun blocks same => ?_⟩,
    fun total sum => ⟨replied.readOff, batches, consecutive, ?_, inside, reads⟩⟩
  · obtain rfl := Except.ok.inj same
    exact ⟨batches, inside, consecutive⟩
  · have small : batch.length < UInt64.size := by
      calc
        batch.length ≤ maxBlocksPerRequest := by omega
        _ < UInt64.size := by decide
    rw [Machine.checkedAdd_eq_some, UInt64.toNat_ofNat_of_lt' small, received.next] at sum
    rw [sum, length, Nat.add_assoc]

/-- A request that was refused accepts nothing. -/
theorem refused (received : Received serde start fromHeight target all nextHeight talk)
    (more : all.length < target) {result : Except BlocksError (List Block)}
    (replied : Replied serde start maxInterleaved talk (result, later)) (error : BlocksError) :
    Answered serde start fromHeight target (.error error, later) where
  readOff := replied.readOff
  reads := by
    calc
      later.read.length ≤ talk.read.length + maxInterleaved := replied.reads
      _ ≤ maxInterleaved * all.length + maxInterleaved :=
        Nat.add_le_add_right received.reads _
      _ = maxInterleaved * (all.length + 1) := (Nat.mul_succ _ _).symm
      _ ≤ maxInterleaved * target := Nat.mul_le_mul_left _ more
  blocks _ none := by cases none

/-- An empty reply ends the loop. -/
theorem finished (received : Received serde start fromHeight target all nextHeight talk)
    (more : all.length < target)
    (replied : Replied serde start maxInterleaved talk (.ok [], later)) :
    Answered serde start fromHeight target (.ok all, later) where
  readOff := replied.readOff
  reads := (received.refused more replied .expectedBlocks).reads
  blocks blocks same := by
    obtain rfl := Except.ok.inj same
    have batches := replied.batch [] rfl
    rw [List.append_nil, ← received.batches] at batches
    exact ⟨batches.symm, received.inside, received.consecutive⟩

/-- Asking for more changes nothing that was received. -/
theorem asked (received : Received serde start fromHeight target all nextHeight talk)
    (sink : Sink) :
    Received serde start fromHeight target all nextHeight { talk with sink } :=
  ⟨received.readOff, received.batches, received.consecutive, received.next, received.inside,
    received.reads⟩

/-- What comes back when more is asked for. -/
theorem replied (received : Received serde start fromHeight target all nextHeight talk)
    {sink : Sink} {result : Except BlocksError (List Block)}
    (reply : awaitReply serde maxInterleaved { talk with sink } = (result, later)) :
    Replied serde start maxInterleaved { talk with sink } (result, later) := by
  rw [← reply]
  exact awaitReply_replied (received.asked sink).readOff

/-- The loop may stop where it stands. -/
theorem answered (received : Received serde start fromHeight target all nextHeight talk) :
    Answered serde start fromHeight target (.ok all, talk) where
  readOff := received.readOff
  reads := received.reads.trans (Nat.mul_le_mul_left _ received.inside)
  blocks blocks same := by
    obtain rfl := Except.ok.inj same
    exact ⟨received.batches, received.inside, received.consecutive⟩

end Received

theorem requestFrom_answered {all : List Block} {nextHeight : UInt64} {talk : Conversation}
    (bounded : target ≤ maxBlocksPerRequest)
    (received : Received serde start fromHeight target all nextHeight talk) :
    Answered serde start fromHeight target (requestFrom serde target all nextHeight talk) := by
  fun_induction requestFrom serde target all nextHeight talk with
  | case1 all nextHeight talk more remaining error sink broken =>
      have known := (received.asked sink).answered
      exact ⟨known.readOff, known.reads, fun _ none => by cases none⟩
  | case2 all nextHeight talk more remaining sink wrote error later reply =>
      exact (received.asked sink).refused more (received.replied reply) error
  | case3 all nextHeight talk more remaining sink wrote later reply =>
      exact (received.asked sink).finished more (received.replied reply)
  | case4 all nextHeight talk more remaining sink wrote batch later reply some long =>
      exact (received.asked sink).refused more (received.replied reply) .tooMany
  | case5 all nextHeight talk more remaining sink wrote batch later reply some short error bad =>
      exact (received.asked sink).refused more (received.replied reply) error
  | case6 all nextHeight talk more remaining sink wrote batch later reply some short good =>
      exact ((received.asked sink).extend (received.replied reply) some (Nat.not_lt.mp short)
        bounded good).1
  | case7 all nextHeight talk more remaining sink wrote batch later reply some short good =>
      exact ((received.asked sink).extend (received.replied reply) some (Nat.not_lt.mp short)
        bounded good).1
  | case8 all nextHeight talk more remaining sink wrote batch later reply some short good apart
      total sum ih =>
      exact ih (((received.asked sink).extend (received.replied reply) some
        (Nat.not_lt.mp short) bounded good).2 total sum)
  | case9 all nextHeight talk full =>
      exact received.answered

/-- Whatever the peer sends, a request comes back after reading a bounded number of messages
off the stream.  If it comes back with blocks, these are all the batches that were read, each as
a whole; they have consecutive heights from the one asked for, and are no more than asked for. -/
theorem requestBlocks_sound (serde : WireSerde) (fromHeight : UInt64) (limit : Nat) (sink : Sink)
    (chunks : List Bytes) :
    Answered serde chunks fromHeight (min limit maxBlocksPerRequest)
      (requestBlocks serde fromHeight limit sink chunks) := by
  have start (target : Nat) : Received serde chunks fromHeight target [] fromHeight
      ⟨sink, chunks, []⟩ :=
    ⟨rfl, rfl, rfl, rfl, Nat.zero_le _, Nat.zero_le _⟩
  unfold requestBlocks
  by_cases none : min limit maxBlocksPerRequest = 0
  · rw [if_pos none]
    exact (start _).answered
  · rw [if_neg none]
    exact requestFrom_answered (min_le_right _ _) (start _)

end Requests

end Nightfall
