import Nightfall.Consensus.Block
import Nightfall.Library.Guard
import Nightfall.Library.Streams
import Nightfall.Library.Text

/-!
# Messages on the wire

One JSON text a line over TCP.  The sender serializes into a bounded buffer before it touches
the stream, the reader takes no more than the limit off it, and a list of blocks is cut to
the longest prefix that fits one line.
-/

namespace Nightfall

open Utf8 (Text)

/-! ## Messages -/

def maxMessageBytes : Nat := 4 * 1024 * 1024

/-- The trailing newline counts against the limit. -/
def maxWirePayloadBytes : Nat := maxMessageBytes - 1

inductive PeerMsg where
  | hello (wire : Nat) (network : NetworkId) (genesis : Text) (height : UInt64) (tip agent : Text)
      (listenPort : Nat) (pruned : Bool) (firstHeight : UInt64)
  | helloOk (wire : Nat) (network : NetworkId) (genesis : Text) (height : UInt64) (tip : Text)
      (listenPort : Nat) (pruned : Bool) (firstHeight : UInt64)
  | getPeers
  | peers (addrs : List Text)
  | ping (nonce : UInt64)
  | pong (nonce : UInt64)
  | getBlocks (fromHeight : UInt64) (limit : Nat)
  | blocks (blocks : List Block)
  | invBlock (hash : Text) (height : UInt64)
  | getBlock (hash : Text)
  | block (block : Block)
  | tx (tx : Transaction)
  | getStatus
  | status (height : UInt64) (tip : Text) (bits peers mempool : Nat)
  | error (message : Text)
  deriving DecidableEq

/-- The serializer, as far as the wire relies on it. -/
structure WireSerde where
  /-- The pieces in which the text of a message is written. -/
  pieces : PeerMsg → List Bytes
  /-- The same for a `Blocks` message that borrows its list. -/
  borrowedPieces : List Block → List Bytes
  /-- Read a text back, or say why not. -/
  parse : Text → Except Text PeerMsg

namespace WireSerde

variable (serde : WireSerde)

/-- The text of a message. -/
def text (msg : PeerMsg) : Text :=
  (serde.pieces msg).flatten

/-- The text of the message is an object on one line, and is parsed again. -/
structure Inverse (msg : PeerMsg) : Prop where
  parsed : serde.parse (serde.text msg) = .ok msg
  oneLine : 10 ∉ serde.text msg
  valid : Utf8.isValid (serde.text msg ++ [10]) = true
  braces : ∃ inner, serde.text msg = 123 :: (inner ++ [125])

/-- A `Blocks` message around the texts of its blocks. -/
def blocksText (elements : List Text) : Text :=
  ascii "\x7b\"type\":\"blocks\",\"blocks\":[" ++ List.intercalate [44] elements ++ ascii "]\x7d"

/-- Both `Blocks` messages write an array of one text a block. -/
structure Arrays (element : Block → Text) : Prop where
  owned : ∀ blocks, serde.text (.blocks blocks) = blocksText (blocks.map element)
  borrowed : ∀ blocks, (serde.borrowedPieces blocks).flatten = blocksText (blocks.map element)

end WireSerde

inductive WireError where
  | exceeds
  | peerClosed
  | truncated
  | nonUtf8
  | parse (message : Text)
  | io
  | singleBlock
  deriving DecidableEq

/-! ## Writing -/

/-- A sink that refuses to grow past its limit. -/
structure BoundedBuffer where
  bytes : Bytes
  limit : Nat

def BoundedBuffer.new (limit : Nat) : BoundedBuffer := ⟨[], limit⟩

def BoundedBuffer.write (buffer : BoundedBuffer) (piece : Bytes) :
    Except WireError BoundedBuffer := do
  Guard.refuse (buffer.bytes.length + piece.length > buffer.limit) .exceeds
  .ok { buffer with bytes := buffer.bytes ++ piece }

/-- `to_writer`: all pieces into the buffer. -/
def toWriter (buffer : BoundedBuffer) (pieces : List Bytes) : Except WireError BoundedBuffer :=
  pieces.foldlM BoundedBuffer.write buffer

def encodeWireLine (pieces : List Bytes) : Except WireError Bytes := do
  let out ← toWriter (.new maxWirePayloadBytes) pieces
  .ok (out.bytes ++ [10])

def fitsWire (pieces : List Bytes) : Bool :=
  match toWriter (.new maxWirePayloadBytes) pieces with
  | .ok _ => true
  | .error _ => false

def largestFittingPrefix (length : Nat) (fits : Nat → Bool) : Nat :=
  Streams.bisect fits 0 length

/-- Trim a `Blocks` response to the largest prefix that is one legal frame. -/
def fitBlocksResponse (serde : WireSerde) (blocks : List Block) :
    Except WireError (List Block) :=
  if blocks = [] then .ok blocks
  else
    let keep := largestFittingPrefix blocks.length fun count =>
      fitsWire (serde.borrowedPieces (blocks.take count))
    if keep = 0 then .error .singleBlock else .ok (blocks.take keep)

/-- The sending side of a connection.  `room` is how many bytes it still takes before it
breaks, if it does. -/
structure Sink where
  sent : Bytes
  room : Option Nat
  deriving DecidableEq

/-- `write_all`: on a connection that breaks, a part of the bytes may be sent. -/
def Sink.writeAll (sink : Sink) (bytes : Bytes) : Except WireError Unit × Sink :=
  match sink.room with
  | none => (.ok (), { sink with sent := sink.sent ++ bytes })
  | some room =>
      if bytes.length ≤ room then
        (.ok (), { sent := sink.sent ++ bytes, room := some (room - bytes.length) })
      else (.error .io, { sent := sink.sent ++ bytes.take room, room := some 0 })

/-- Serialize in full before touching the stream. -/
def writeMsg (serde : WireSerde) (sink : Sink) (msg : PeerMsg) : Except WireError Unit × Sink :=
  match encodeWireLine (serde.pieces msg) with
  | .error error => (.error error, sink)
  | .ok line => sink.writeAll line

/-- Write messages one after the other, whatever happens to each. -/
def writeMsgs (serde : WireSerde) : Sink → List PeerMsg → List (Except WireError Unit) × Sink
  | sink, [] => ([], sink)
  | sink, msg :: rest =>
      let written := writeMsg serde sink msg
      let later := writeMsgs serde written.2 rest
      (written.1 :: later.1, later.2)

/-! ## Reading -/

/-- What a line is taken for. -/
def readLine (serde : WireSerde) (line : Bytes) : Except WireError PeerMsg := do
  Guard.refuse (line.length = 0) .peerClosed
  Guard.refuse (line.length > maxMessageBytes) .exceeds
  Guard.refuse (line.getLast? ≠ some 10) .truncated
  Guard.refuse (¬Utf8.isValid line) .nonUtf8
  (serde.parse (Utf8.trim line)).mapError .parse

/-- Read one message from what is left of a stream. -/
def readMsg (serde : WireSerde) (chunks : List Bytes) : Except WireError PeerMsg × List Bytes :=
  let read := Streams.readUntil 10 (maxMessageBytes + 1) chunks
  (readLine serde read.1, read.2)

/-- Read this many messages. -/
def readMsgs (serde : WireSerde) :
    Nat → List Bytes → List (Except WireError PeerMsg) × List Bytes
  | 0, chunks => ([], chunks)
  | count + 1, chunks =>
      let read := readMsg serde chunks
      let later := readMsgs serde count read.2
      (read.1 :: later.1, later.2)

/-! ## The budget -/

section Budget

variable {buffer : BoundedBuffer} {pieces : List Bytes}

/-- Writing in pieces fails exactly when the whole does not fit. -/
theorem toWriter_eq (fits : buffer.bytes.length ≤ buffer.limit) :
    toWriter buffer pieces =
      if buffer.bytes.length + pieces.flatten.length ≤ buffer.limit then
        .ok ⟨buffer.bytes ++ pieces.flatten, buffer.limit⟩
      else .error .exceeds := by
  induction pieces generalizing buffer with
  | nil =>
      rw [if_pos (by simpa using fits)]
      simp [toWriter, pure, Except.pure]
  | cons piece rest ih =>
      have unfolded : toWriter buffer (piece :: rest) =
          (buffer.write piece >>= fun next => toWriter next rest) := List.foldlM_cons
      rw [unfolded, List.flatten_cons, List.length_append]
      by_cases small : buffer.bytes.length + piece.length ≤ buffer.limit
      · have written : buffer.write piece = .ok ⟨buffer.bytes ++ piece, buffer.limit⟩ := by
          simp [BoundedBuffer.write, small]
        have later := @ih ⟨buffer.bytes ++ piece, buffer.limit⟩ (by simpa using small)
        simp only [List.length_append, List.append_assoc, Nat.add_assoc] at later
        rw [written]
        exact later
      · have refused : buffer.write piece = .error .exceeds := by
          rw [BoundedBuffer.write, Guard.bind_eq_error, Guard.refuse_eq_error]
          exact .inl ⟨Nat.not_le.mp small, rfl⟩
        rw [refused, if_neg (by omega)]
        rfl

theorem encodeWireLine_eq :
    encodeWireLine pieces =
      if pieces.flatten.length ≤ maxWirePayloadBytes then .ok (pieces.flatten ++ [10])
      else .error .exceeds := by
  have written := @toWriter_eq (.new maxWirePayloadBytes) pieces (Nat.zero_le _)
  simp only [BoundedBuffer.new, List.length_nil, Nat.zero_add, List.nil_append] at written
  rw [encodeWireLine, BoundedBuffer.new, written]
  split
  · rfl
  · rfl

theorem fitsWire_eq : fitsWire pieces = decide (pieces.flatten.length ≤ maxWirePayloadBytes) := by
  have written := @toWriter_eq (.new maxWirePayloadBytes) pieces (Nat.zero_le _)
  simp only [BoundedBuffer.new, List.length_nil, Nat.zero_add, List.nil_append] at written
  rw [fitsWire, BoundedBuffer.new, written]
  split
  next writes =>
      split at writes
      next fits => exact (decide_eq_true fits).symm
      next => cases writes
  next writes =>
      split at writes
      next => cases writes
      next large => exact (decide_eq_false large).symm

end Budget

/-! ## Writing and reading back -/

section Frames

variable {serde : WireSerde} {sink : Sink} {msg : PeerMsg} {msgs : List PeerMsg}
  {chunks : List Bytes} {payload more : Bytes}

/-- The line of a message. -/
def frame (serde : WireSerde) (msg : PeerMsg) : Bytes :=
  serde.text msg ++ [10]

/-- The sender accepts the message. -/
def Fits (serde : WireSerde) (msg : PeerMsg) : Prop :=
  (serde.text msg).length ≤ maxWirePayloadBytes

instance (serde : WireSerde) (msg : PeerMsg) : Decidable (Fits serde msg) :=
  inferInstanceAs (Decidable (_ ≤ _))

theorem encodeWireLine_msg (serde : WireSerde) (msg : PeerMsg) :
    encodeWireLine (serde.pieces msg) =
      if Fits serde msg then .ok (frame serde msg) else .error .exceeds :=
  encodeWireLine_eq

/-- What a write can do. -/
inductive Written (serde : WireSerde) (sink : Sink) (msg : PeerMsg) :
    Except WireError Unit × Sink → Prop where
  | sent (room : Option Nat) (fits : Fits serde msg) (whole : sink.room = none → room = none) :
      Written serde sink msg (.ok (), ⟨sink.sent ++ frame serde msg, room⟩)
  | refused (large : ¬Fits serde msg) : Written serde sink msg (.error .exceeds, sink)
  | broken (room : Nat) (fits : Fits serde msg) (known : sink.room = some room)
      (short : room ≤ (serde.text msg).length) :
      Written serde sink msg
        (.error .io, ⟨sink.sent ++ (serde.text msg).take room, some 0⟩)

theorem written (serde : WireSerde) (sink : Sink) (msg : PeerMsg) :
    Written serde sink msg (writeMsg serde sink msg) := by
  rw [writeMsg, encodeWireLine_msg]
  by_cases fits : Fits serde msg
  · rw [if_pos fits]
    simp only [Sink.writeAll]
    cases known : sink.room with
    | none => exact .sent none fits fun _ => rfl
    | some room =>
        simp only
        split
        · exact .sent _ fits fun none => by rw [known] at none; cases none
        next short =>
            rw [frame, List.length_append, List.length_singleton] at short
            rw [frame, List.take_append_of_le_length (by omega)]
            exact .broken room fits known (by omega)
  · rw [if_neg fits]
    exact .refused fits

/-- The messages whose writes succeeded. -/
def accepted (msgs : List PeerMsg) (results : List (Except WireError Unit)) : List PeerMsg :=
  (msgs.zip results).filterMap fun entry =>
    match entry.2 with
    | .ok () => some entry.1
    | .error _ => none

@[simp] theorem accepted_ok (msg : PeerMsg) (msgs : List PeerMsg)
    (results : List (Except WireError Unit)) :
    accepted (msg :: msgs) (.ok () :: results) = msg :: accepted msgs results := rfl

@[simp] theorem accepted_error (msg : PeerMsg) (msgs : List PeerMsg) (error : WireError)
    (results : List (Except WireError Unit)) :
    accepted (msg :: msgs) (.error error :: results) = accepted msgs results := rfl

/-- Nothing more is sent on a connection that broke. -/
theorem writeMsgs_broken (broken : sink.room = some 0) (msgs : List PeerMsg) :
    (writeMsgs serde sink msgs).2 = sink ∧
      accepted msgs (writeMsgs serde sink msgs).1 = [] := by
  induction msgs with
  | nil => exact ⟨rfl, rfl⟩
  | cons msg rest ih =>
      have first : ∃ error, writeMsg serde sink msg = (.error error, sink) := by
        obtain ⟨sent, room⟩ := sink
        obtain rfl : room = some 0 := broken
        rw [writeMsg, encodeWireLine_msg]
        by_cases fits : Fits serde msg
        · rw [if_pos fits]
          exact ⟨.io, by simp [Sink.writeAll, frame]⟩
        · rw [if_neg fits]
          exact ⟨.exceeds, rfl⟩
      obtain ⟨error, failed⟩ := first
      simp only [writeMsgs, failed, accepted_error]
      exact ih

/-- Every accepted message was given and fits. -/
theorem of_mem_accepted (serde : WireSerde) (sink : Sink) (msgs : List PeerMsg) :
    ∀ msg ∈ accepted msgs (writeMsgs serde sink msgs).1, msg ∈ msgs ∧ Fits serde msg := by
  induction msgs generalizing sink with
  | nil => simp [accepted]
  | cons msg rest ih =>
      have step := written serde sink msg
      simp only [writeMsgs]
      generalize outcome : writeMsg serde sink msg = result at step
      have later (sink : Sink) : ∀ other ∈ accepted rest (writeMsgs serde sink rest).1,
          other ∈ msg :: rest ∧ Fits serde other :=
        fun other member => ⟨List.mem_cons_of_mem _ (ih sink other member).1,
          (ih sink other member).2⟩
      cases step with
      | sent room fits whole =>
          rw [accepted_ok]
          exact List.forall_mem_cons.mpr ⟨⟨List.mem_cons_self, fits⟩, later _⟩
      | refused large => exact later _
      | broken room fits known short => exact later _

/-- The stream holds the lines of the accepted messages, and behind them at most a part of
the line on which the connection broke. -/
theorem writeMsgs_sent (serde : WireSerde) (sink : Sink) (msgs : List PeerMsg) :
    ∃ part, (writeMsgs serde sink msgs).2.sent =
        sink.sent ++ (accepted msgs (writeMsgs serde sink msgs).1).flatMap (frame serde) ++ part ∧
      (part = [] ∨ sink.room ≠ none ∧ ∃ msg ∈ msgs, Fits serde msg ∧ part <+: serde.text msg) := by
  induction msgs generalizing sink with
  | nil => exact ⟨[], by simp [writeMsgs, accepted], .inl rfl⟩
  | cons msg rest ih =>
      have step := written serde sink msg
      simp only [writeMsgs]
      generalize outcome : writeMsg serde sink msg = result at step
      cases step with
      | sent room fits whole =>
          obtain ⟨part, sent, cut⟩ := ih ⟨sink.sent ++ frame serde msg, room⟩
          refine ⟨part, by rw [sent]; simp, cut.imp_right ?_⟩
          rintro ⟨breaks, other, member, otherFits, start⟩
          exact ⟨fun none => breaks (whole none), other, List.mem_cons_of_mem _ member, otherFits,
            start⟩
      | refused large =>
          obtain ⟨part, sent, cut⟩ := ih sink
          refine ⟨part, sent, cut.imp_right ?_⟩
          rintro ⟨breaks, other, member, otherFits, start⟩
          exact ⟨breaks, other, List.mem_cons_of_mem _ member, otherFits, start⟩
      | broken room fits known short =>
          obtain ⟨same, none⟩ := @writeMsgs_broken serde
            ⟨sink.sent ++ (serde.text msg).take room, some 0⟩ rfl rest
          refine ⟨(serde.text msg).take room, ?_, .inr ⟨by simp [known], msg,
            List.mem_cons_self, fits, List.take_prefix room _⟩⟩
          simp [same, none]

/-! ### Reading -/

/-- A line within the limit is read as a whole, and nothing behind it is taken. -/
theorem readMsg_line (free : 10 ∉ payload) (inside : payload.length ≤ maxWirePayloadBytes)
    (stream : chunks.flatten = payload ++ 10 :: more) :
    (readMsg serde chunks).1 = readLine serde (payload ++ [10]) ∧
      (readMsg serde chunks).2.flatten = more := by
  obtain ⟨line, left⟩ := Streams.readUntil_eq 10 (maxMessageBytes + 1) chunks
  have room : payload.length < maxMessageBytes + 1 := by
    rw [maxWirePayloadBytes] at inside
    omega
  rw [stream, Streams.takeThrough_take_line free room] at line
  rw [line, stream, List.append_assoc] at left
  exact ⟨by rw [readMsg, line], (List.cons.inj (List.append_cancel_left left)).2⟩

/-- A line within the limit is neither too long nor cut off. -/
theorem readLine_whole (inside : payload.length ≤ maxWirePayloadBytes) :
    readLine serde (payload ++ [10]) =
      if Utf8.isValid (payload ++ [10]) then
        (serde.parse (Utf8.trim (payload ++ [10]))).mapError .parse
      else .error .nonUtf8 := by
  have large : 0 < maxMessageBytes := by decide
  have short : ¬(payload ++ [10]).length > maxMessageBytes := by
    rw [maxWirePayloadBytes] at inside
    rw [List.length_append, List.length_singleton]
    omega
  have some : ¬(payload ++ [10]).length = 0 := by simp
  simp only [readLine, Guard.refuse, if_neg some, if_neg short, List.getLast?_concat, ne_eq,
    not_true_eq_false, if_false]
  by_cases valid : Utf8.isValid (payload ++ [10]) = true
  · simp only [valid, not_true_eq_false, if_false, if_true]
    rfl
  · simp only [valid]
    rfl

theorem readMsg_frame (inverse : serde.Inverse msg) (fits : Fits serde msg)
    (stream : chunks.flatten = frame serde msg ++ more) :
    (readMsg serde chunks).1 = .ok msg ∧ (readMsg serde chunks).2.flatten = more := by
  rw [frame, List.append_assoc] at stream
  obtain ⟨read, left⟩ := @readMsg_line serde _ _ _ inverse.oneLine fits stream
  refine ⟨?_, left⟩
  have trimmed : Utf8.trim (serde.text msg ++ [10]) = serde.text msg := by
    obtain ⟨inner, shape⟩ := inverse.braces
    rw [shape]
    exact Utf8.trim_line ⟨by decide, by decide⟩ ⟨by decide, by decide⟩ inner
  rw [read, readLine_whole fits, if_pos inverse.valid, trimmed, inverse.parsed]
  rfl

/-- Messages that were written one after the other are read one after the other. -/
theorem readMsgs_frames (inverse : ∀ msg ∈ msgs, serde.Inverse msg ∧ Fits serde msg)
    (stream : chunks.flatten = msgs.flatMap (frame serde) ++ more) :
    (readMsgs serde msgs.length chunks).1 = msgs.map .ok ∧
      (readMsgs serde msgs.length chunks).2.flatten = more := by
  induction msgs generalizing chunks with
  | nil => exact ⟨rfl, stream⟩
  | cons msg rest ih =>
      obtain ⟨known, fits⟩ := inverse msg List.mem_cons_self
      rw [List.flatMap_cons, List.append_assoc] at stream
      obtain ⟨read, left⟩ := readMsg_frame known fits stream
      obtain ⟨later, end'⟩ := ih (fun other member => inverse other (List.mem_cons_of_mem _ member))
        left
      simp only [readMsgs, List.length_cons, List.map_cons, read, later]
      exact ⟨trivial, end'⟩

/-- A stream whose line is longer than the limit is refused, and no more than one byte
beyond the limit is taken off it. -/
theorem readMsg_long (free : 10 ∉ chunks.flatten.take maxMessageBytes)
    (long : maxMessageBytes < chunks.flatten.length) :
    (readMsg serde chunks).1 = .error .exceeds ∧
      ∃ taken, taken.length ≤ maxMessageBytes + 1 ∧
        taken ++ (readMsg serde chunks).2.flatten = chunks.flatten := by
  obtain ⟨line, left⟩ := Streams.readUntil_eq 10 (maxMessageBytes + 1) chunks
  refine ⟨?_, _, Streams.readUntil_length_le 10 (maxMessageBytes + 1) chunks, left⟩
  obtain ⟨byte, rest, shape⟩ : ∃ byte rest,
      chunks.flatten = chunks.flatten.take maxMessageBytes ++ byte :: rest := by
    obtain ⟨byte, rest, tail⟩ := List.exists_cons_of_length_pos
      (l := chunks.flatten.drop maxMessageBytes) (by rw [List.length_drop]; omega)
    exact ⟨byte, rest, by rw [← tail, List.take_append_drop]⟩
  have length : (chunks.flatten.take maxMessageBytes).length = maxMessageBytes := by
    rw [List.length_take]
    omega
  have whole : (Streams.readUntil 10 (maxMessageBytes + 1) chunks).1.length =
      maxMessageBytes + 1 := by
    rw [line, shape, List.take_append, length, Nat.add_sub_cancel_left,
      List.take_of_length_le (by omega), Streams.takeThrough_append_of_not_mem free,
      List.length_append, length]
    simp only [List.take_succ_cons, List.take_zero, Streams.takeThrough]
    split
    · rfl
    · rfl
  have large : 0 < maxMessageBytes := by decide
  rw [readMsg, readLine]
  simp only [Guard.refuse, whole]
  rw [if_neg (by omega), if_pos (by omega)]
  rfl

/-- At the end of the stream the peer has closed. -/
theorem readMsg_empty (ended : chunks.flatten = []) :
    (readMsg serde chunks).1 = .error .peerClosed := by
  obtain ⟨line, left⟩ := Streams.readUntil_eq 10 (maxMessageBytes + 1) chunks
  rw [ended, List.append_eq_nil_iff] at left
  rw [readMsg, left.1]
  rfl

/-- Behind the last whole line there is nothing to read. -/
theorem readMsg_part (free : 10 ∉ chunks.flatten)
    (short : chunks.flatten.length ≤ maxWirePayloadBytes) :
    (readMsg serde chunks).1 = .error .peerClosed ∨
      (readMsg serde chunks).1 = .error .truncated := by
  obtain ⟨line, left⟩ := Streams.readUntil_eq 10 (maxMessageBytes + 1) chunks
  rw [maxWirePayloadBytes] at short
  rw [List.take_of_length_le (by omega), Streams.takeThrough_of_not_mem free] at line
  rw [readMsg, line]
  by_cases none : chunks.flatten.length = 0
  · left
    simp only [readLine, Guard.refuse, if_pos none]
    rfl
  · right
    have last : chunks.flatten.getLast? ≠ some 10 :=
      fun found => free (List.mem_of_getLast? found)
    simp only [readLine, Guard.refuse, if_neg none, if_neg (show ¬chunks.flatten.length >
      maxMessageBytes by omega), if_pos last]
    rfl

end Frames

/-! ## The longest prefix -/

section Prefixes

variable {serde : WireSerde} {element : Block → Text} {blocks : List Block}

/-- An array of more elements is not shorter. -/
theorem intercalate_take_le (elements : List Text) (count : Nat) :
    (List.intercalate [44] (elements.take count)).length ≤
      (List.intercalate [44] elements).length := by
  have joined (front back : List Text) :
      (List.intercalate [44] front).length ≤ (List.intercalate [44] (front ++ back)).length := by
    induction front with
    | nil => exact Nat.zero_le _
    | cons first rest ih =>
        cases rest with
        | nil =>
            cases back with
            | nil => exact le_rfl
            | cons other others => simp [List.intercalate_cons_cons]
        | cons second others =>
            rw [List.cons_append] at ih
            rw [List.cons_append, List.cons_append, List.intercalate_cons_cons,
              List.intercalate_cons_cons]
            simp only [List.length_append] at ih ⊢
            exact Nat.add_le_add_left ih _
  have split := joined (elements.take count) (elements.drop count)
  rwa [List.take_append_drop] at split

theorem blocksText_length (elements : List Text) :
    (WireSerde.blocksText elements).length = (List.intercalate [44] elements).length + 29 := by
  rw [WireSerde.blocksText, List.length_append, List.length_append]
  have front : (ascii "\x7b\"type\":\"blocks\",\"blocks\":[").length = 27 := by decide
  have back : (ascii "]\x7d").length = 2 := by decide
  omega

theorem fits_take_of_le (arrays : serde.Arrays element) {count more : Nat} (order : count ≤ more)
    (fits : Fits serde (.blocks (blocks.take more))) :
    Fits serde (.blocks (blocks.take count)) := by
  have shorter := intercalate_take_le ((blocks.take more).map element) count
  rw [← List.map_take, List.take_take, min_eq_left order] at shorter
  unfold Fits at fits ⊢
  rw [arrays.owned, blocksText_length] at fits ⊢
  omega

theorem fitsWire_borrowed (arrays : serde.Arrays element) (blocks : List Block) :
    fitsWire (serde.borrowedPieces blocks) = decide (Fits serde (.blocks blocks)) := by
  rw [fitsWire_eq, arrays.borrowed, ← arrays.owned]
  rfl

/-- The answer is the longest prefix that the sender accepts, and an error where only the
empty one is accepted of a list that is not. -/
theorem fitBlocksResponse_eq (arrays : serde.Arrays element) (blocks : List Block) :
    ∃ keep ≤ blocks.length, Fits serde (.blocks (blocks.take keep)) ∧
      (∀ count ≤ blocks.length, Fits serde (.blocks (blocks.take count)) → count ≤ keep) ∧
      fitBlocksResponse serde blocks =
        if keep = 0 ∧ blocks ≠ [] then .error .singleBlock else .ok (blocks.take keep) := by
  have empty : Fits serde (.blocks []) := by
    rw [Fits, arrays.owned, blocksText_length, List.map_nil, List.intercalate_nil]
    decide
  obtain ⟨_, inside, found, none⟩ := @Streams.bisect_eq
    (fun count => fitsWire (serde.borrowedPieces (blocks.take count))) _ _
    (Nat.zero_le blocks.length) (by
      intro count more _ order _ fits
      simp only [fitsWire_borrowed arrays, decide_eq_true_eq] at fits ⊢
      exact fits_take_of_le arrays order fits)
  have read (count : Nat) :
      fitsWire (serde.borrowedPieces (blocks.take count)) =
        decide (Fits serde (.blocks (blocks.take count))) := fitsWire_borrowed arrays _
  refine ⟨_, inside, ?_, ?_, ?_⟩
  · rcases Nat.eq_zero_or_pos (largestFittingPrefix blocks.length fun count =>
        fitsWire (serde.borrowedPieces (blocks.take count))) with zero | positive
    · rw [largestFittingPrefix] at zero
      rw [zero]
      exact empty
    · have kept := found positive
      rwa [read, decide_eq_true_eq] at kept
  · intro count within fits
    by_contra larger
    have refused := none count (Nat.not_le.mp larger) within
    rw [read, decide_eq_false_iff_not] at refused
    exact refused fits
  · unfold fitBlocksResponse
    by_cases any : blocks = []
    · rw [if_pos any, if_neg (fun both => both.2 any), any, List.take_nil]
    · rw [if_neg any]
      simp only [largestFittingPrefix, ne_eq, any, not_false_eq_true, and_true]
      exact if_congr Iff.rfl rfl rfl

end Prefixes

end Nightfall
