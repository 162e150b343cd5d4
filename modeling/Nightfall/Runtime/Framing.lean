import Nightfall.Runtime.Wire
import Nightfall.Storage.Sample

/-!
# Framing

What the sender puts on a stream, the receiver reads back message by message, wherever the
stream is cut into chunks.  The two count the same limit, and an answer of blocks is filled
up to it.
-/

namespace Nightfall

open Utf8 (Text)

section Framing

variable {serde : WireSerde} {element : Block → Text} {msgs : List PeerMsg}

/-- A stream on which nothing was sent yet. -/
def Sink.fresh (room : Option Nat) : Sink :=
  ⟨[], room⟩

/-- The message can be written. -/
def Accepts (serde : WireSerde) (msg : PeerMsg) : Prop :=
  (writeMsg serde (.fresh none) msg).1 = .ok ()

theorem accepts_iff {msg : PeerMsg} : Accepts serde msg ↔ Fits serde msg := by
  rw [Accepts, writeMsg, encodeWireLine_msg]
  by_cases fits : Fits serde msg
  · rw [if_pos fits]
    exact iff_of_true rfl fits
  · rw [if_neg fits]
    exact iff_of_false (by simp) fits

/-- The accepted messages are read back in order, and then the stream ends, or breaks off
inside a line. -/
structure ReadsBack (serde : WireSerde) (room : Option Nat) (msgs : List PeerMsg)
    (chunks : List Bytes) : Prop where
  messages : (readMsgs serde (accepted msgs (writeMsgs serde (.fresh room) msgs).1).length
      chunks).1 = (accepted msgs (writeMsgs serde (.fresh room) msgs).1).map .ok
  ends : (readMsg serde (readMsgs serde (accepted msgs (writeMsgs serde (.fresh room)
      msgs).1).length chunks).2).1 = .error .peerClosed ∨ room ≠ none ∧
    (readMsg serde (readMsgs serde (accepted msgs (writeMsgs serde (.fresh room)
      msgs).1).length chunks).2).1 = .error .truncated

theorem readsBack (inverse : ∀ msg ∈ msgs, serde.Inverse msg) (room : Option Nat)
    {chunks : List Bytes}
    (stream : chunks.flatten = (writeMsgs serde (.fresh room) msgs).2.sent) :
    ReadsBack serde room msgs chunks := by
  obtain ⟨part, sent, cut⟩ := writeMsgs_sent serde (.fresh room) msgs
  rw [sent, Sink.fresh, List.nil_append] at stream
  obtain ⟨read, left⟩ := readMsgs_frames (fun msg member =>
    have ⟨given, fits⟩ := of_mem_accepted serde (.fresh room) msgs msg member
    ⟨inverse msg given, fits⟩) stream
  refine ⟨read, ?_⟩
  rcases cut with empty | ⟨breaks, msg, member, fits, start⟩
  · left
    exact readMsg_empty (left.trans empty)
  · have free : 10 ∉ part := fun found => (inverse msg member).oneLine (start.subset found)
    have short : part.length ≤ maxWirePayloadBytes := start.length_le.trans fits
    rw [← left] at free short
    exact (readMsg_part free short).imp_right fun truncated => ⟨breaks, truncated⟩

/-- Up to the limit a line is taken for what it says, and behind it nothing is read.  A
longer one is refused, and at most one byte more than the limit is read. -/
structure LineLimit (serde : WireSerde) (payload more : Bytes) (chunks : List Bytes) : Prop where
  within : payload.length ≤ maxMessageBytes - 1 →
    (readMsg serde chunks).1 =
        (if Utf8.isValid (payload ++ [10]) then
          (serde.parse (Utf8.trim (payload ++ [10]))).mapError .parse
        else .error .nonUtf8) ∧
      (readMsg serde chunks).2.flatten = more
  beyond : maxMessageBytes - 1 < payload.length →
    (readMsg serde chunks).1 = .error .exceeds ∧
      ∃ taken, taken.length ≤ maxMessageBytes + 1 ∧
        taken ++ (readMsg serde chunks).2.flatten = chunks.flatten

theorem lineLimit {payload more : Bytes} {chunks : List Bytes} (free : 10 ∉ payload)
    (stream : chunks.flatten = payload ++ 10 :: more) : LineLimit serde payload more chunks where
  within inside := by
    obtain ⟨read, left⟩ := @readMsg_line serde _ _ _ free inside stream
    exact ⟨read.trans (readLine_whole inside), left⟩
  beyond large := by
    have most : maxMessageBytes ≤ payload.length := Nat.le_of_pred_lt large
    refine readMsg_long ?_ ?_
    · rw [stream, List.take_append_of_le_length most]
      exact fun found => free (List.mem_of_mem_take found)
    · rw [stream, List.length_append, List.length_cons]
      exact most.trans_lt (Nat.lt_add_of_pos_right (Nat.succ_pos _))

/-- The longest prefix of the blocks that can be written as one message. -/
structure LongestAccepted (serde : WireSerde) (blocks : List Block) (keep : Nat) : Prop where
  inside : keep ≤ blocks.length
  accepted : Accepts serde (.blocks (blocks.take keep))
  longest : ∀ count ≤ blocks.length, Accepts serde (.blocks (blocks.take count)) → count ≤ keep

end Framing

/-! ## Samples -/

namespace Sample

/-- Pings and lists of blocks as the derived serializer writes them. -/
def wireSerde : WireSerde where
  pieces
    | .ping nonce => [ascii "\x7b\"type\":\"ping\",\"nonce\":", Utf8.decimal nonce.toNat, [125]]
    | .blocks blocks =>
        [WireSerde.blocksText (blocks.map fun block => Json.render (.object block.fields))]
    | _ => []
  borrowedPieces blocks :=
    [WireSerde.blocksText (blocks.map fun block => Json.render (.object block.fields))]
  parse text :=
    if text = ascii "\x7b\"type\":\"ping\",\"nonce\":7\x7d" then .ok (.ping 7)
    else .error (ascii "expected value")

theorem wireSerde_arrays :
    wireSerde.Arrays fun block => Json.render (.object block.fields) where
  owned blocks := by
    rw [WireSerde.text]
    exact List.append_nil _
  borrowed blocks := List.append_nil _

theorem wireSerde_ping : wireSerde.Inverse (.ping 7) where
  parsed := by decide
  oneLine := by decide
  valid := by decide
  braces := ⟨(wireSerde.text (.ping 7)).tail.dropLast, by decide⟩

/-- A block whose output carries so many bytes of range proof. -/
def bulky (count : Nat) : Block :=
  { block1 with body := { block1.body with
      outputs := [{ outputOf .plain 0 with rangeProof := List.replicate count 0 }] } }

/-- Every byte of the range proof takes a place in the text. -/
theorem length_bulky (count : Nat) :
    count ≤ (Json.render (.object (bulky count).fields)).length := by
  let output : Output := { outputOf .plain 0 with rangeProof := List.replicate count 0 }
  calc
    count = ((List.replicate count (0 : UInt8)).map fun byte =>
        Json.Value.number byte.toNat).length := by
      rw [List.length_map, List.length_replicate]
    _ ≤ (Json.render (jsonOfBytes output.rangeProof)).length := Json.length_le_render_array _
    _ ≤ (Json.render output.toJson).length :=
      @Json.length_render_le_object _ (ascii "range_proof") _ (by simp [output])
    _ ≤ (Json.render (jsonOfList Output.toJson (bulky count).body.outputs)).length :=
      Json.length_render_le_array (by simp [bulky, output])
    _ ≤ (Json.render (bulky count).body.toJson).length :=
      @Json.length_render_le_object _ (ascii "outputs") _ (by simp)
    _ ≤ (Json.render (.object (bulky count).fields)).length :=
      @Json.length_render_le_object _ (ascii "body") _ (by simp [Block.fields])

/-- A block of four MiB is refused by itself. -/
theorem bulky_refused : ¬Accepts wireSerde (.blocks [bulky maxMessageBytes]) := by
  rw [accepts_iff, Fits, wireSerde_arrays.owned, blocksText_length, List.map_singleton,
    List.intercalate_singleton, maxWirePayloadBytes]
  have long := length_bulky maxMessageBytes
  omega

end Sample

end Nightfall
