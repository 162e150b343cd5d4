import Nightfall.Library.Pieces
import Nightfall.Wallet.Air

/-!
# Frames of a transfer

A payload is cut into numbered frames small enough to photograph, and a reassembler takes
frames in any order.  It gives back the whole payload or nothing.
-/

namespace Nightfall

open Std (ExtTreeMap)
open Air

namespace Domain

def air : Bytes := ascii "nightfall:air:v1"

end Domain

/-- The digest of a payload, as the frames carry it. -/
def digestOf (P : Primitives) (payload : Bytes) : Text :=
  Hex.encode ((hashMulti P Domain.air [payload]).toBytes.take 6)

def frameScheme : Text := airScheme ++ ascii ":frame:"

def frameText (digest : Text) (seq total : Nat) (body : Bytes) : Text :=
  frameScheme ++ List.intercalate [124]
    [Utf8.decimal airVersion, digest, Utf8.decimal seq, Utf8.decimal total, Hex.encode body]

/-- Cut a payload into frames. -/
def frames (P : Primitives) (payload : Bytes) : Except AirError (List Text) := do
  Guard.refuse (payload = []) .payloadEmpty
  Guard.refuse (payload.length > maxPayload) (.payloadTooLarge payload.length)
  let chunks := Pieces.cut maxFramePayload payload
  Guard.refuse (chunks.length > maxFrames) (.tooManyFrames chunks.length)
  .ok (chunks.mapIdx fun index chunk =>
    frameText (digestOf P payload) (index + 1) chunks.length chunk)

/-- What a frame says. -/
structure Frame where
  digest : Text
  seq : Nat
  total : Nat
  body : Bytes
  deriving DecidableEq

def parseIndex (value : Text) : Except AirError Nat := do
  let number ← Guard.need (parseU64 value) .badFrame
  .ok number.toNat

/-- The part of `accept` that looks at the text alone. -/
def readFrame (text : Text) : Except AirError Frame := do
  Guard.refuse (text.length > maxFrameLen) .badFrame
  let rest ← Guard.need (stripPrefix frameScheme (Utf8.trim text)) .notAnAirPackage
  let parts := rest.splitOn 124
  let version ← Guard.need (parts[0]?.bind (Utf8.parseDecimal (2 ^ 32))) .badFrame
  Guard.refuse (version ≠ airVersion) (.unknownVersion version)
  let digest ← Guard.need parts[1]? .badFrame
  let seq ← parseIndex (← Guard.need parts[2]? .badFrame)
  let total ← parseIndex (← Guard.need parts[3]? .badFrame)
  let body ← Guard.need (Hex.decode (← Guard.need parts[4]? .badFrame)) .badFrame
  Guard.refuse (parts[5]?.isSome ∨ body = [] ∨ body.length > maxFramePayload) .badFrame
  Guard.refuse (total = 0 ∨ total > maxFrames ∨ seq = 0 ∨ seq > total) .badFrame
  .ok { digest := digest, seq := seq, total := total, body := body }

/-- Collects frames until a transfer is whole. -/
structure Reassembler where
  digest : Option Text := none
  total : Nat := 0
  parts : ExtTreeMap Nat Bytes := ∅

namespace Reassembler

/-- Take one frame.  A frame of another transfer is refused. -/
def accept (reassembler : Reassembler) (text : Text) : Except AirError Unit × Reassembler :=
  match readFrame text with
  | .error error => (.error error, reassembler)
  | .ok frame =>
      match reassembler.digest with
      | none =>
          (.ok (),
            { digest := some frame.digest
              total := frame.total
              parts := reassembler.parts.insertIfNew frame.seq frame.body })
      | some known =>
          if known ≠ frame.digest ∨ reassembler.total ≠ frame.total then
            (.error .frameFromAnotherTransfer, reassembler)
          else
            (.ok (), { reassembler with
              parts := reassembler.parts.insertIfNew frame.seq frame.body })

def isComplete (reassembler : Reassembler) : Bool :=
  reassembler.total > 0 && reassembler.parts.size == reassembler.total

/-- The payload, once every frame is in and the whole checks out. -/
def finish (P : Primitives) (reassembler : Reassembler) : Except AirError Bytes :=
  if !reassembler.isComplete then
    .error (.incompleteTransfer reassembler.parts.size reassembler.total)
  else
    let payload := (reassembler.parts.toList.map Prod.snd).flatten
    if some (digestOf P payload) ≠ reassembler.digest then .error .digestMismatch
    else .ok payload

/-- The reassembler after a list of strings. -/
def collect (texts : List Text) : Reassembler :=
  texts.foldl (fun reassembler text => (reassembler.accept text).2) {}

theorem collect_append_singleton (texts : List Text) (text : Text) :
    collect (texts ++ [text]) = ((collect texts).accept text).2 := by
  rw [collect, List.foldl_append]
  rfl

end Reassembler

/-! ## Frames are read back -/

theorem isUnreserved_digestOf {P : Primitives} {payload : Bytes} :
    ∀ byte ∈ digestOf P payload, Percent.isUnreserved byte = true :=
  isUnreserved_hex

theorem parseIndex_decimal {number : Nat} (small : number < 2 ^ 64) :
    parseIndex (Utf8.decimal number) = .ok number := by
  have read := parseU64_decimal (UInt64.ofNat number)
  have same : (UInt64.ofNat number).toNat = number := UInt64.toNat_ofNat_of_lt' small
  rw [same] at read
  simp only [parseIndex, Guard.bind_eq_ok, Guard.need_eq_ok, read, Option.some.injEq,
    Except.ok.injEq]
  exact ⟨_, rfl, same⟩

theorem length_decimal_le' {number : Nat} (small : number < 2 ^ 64) :
    (Utf8.decimal number).length ≤ 20 := by
  have short := PaymentRequest.length_decimal_le (UInt64.ofNat number)
  rwa [UInt64.toNat_ofNat_of_lt' small] at short

/-- A frame within the limits is read back. -/
theorem readFrame_frameText {digest : Text} {seq total : Nat} {body : Bytes}
    (digestSafe : ∀ byte ∈ digest, Percent.isUnreserved byte = true) (short : digest.length ≤ 12)
    (positive : 0 < seq) (inside : seq ≤ total) (few : total ≤ maxFrames) (nonempty : body ≠ [])
    (bodyShort : body.length ≤ maxFramePayload) :
    readFrame (frameText digest seq total body) =
      .ok { digest := digest, seq := seq, total := total, body := body } := by
  have frames : maxFrames = 64 := rfl
  have schemeSafe : ∀ byte ∈ frameScheme, Percent.isUnreserved byte = true ∨ byte = 58 := by
    simp [frameScheme, airScheme, ascii, Percent.isUnreserved]
  have parts : ∀ part ∈ [Utf8.decimal airVersion, digest, Utf8.decimal seq, Utf8.decimal total,
      Hex.encode body], ∀ byte ∈ part, Percent.isUnreserved byte = true := by
    simp only [List.forall_mem_cons]
    exact ⟨fun _ => isUnreserved_decimal _, digestSafe, fun _ => isUnreserved_decimal _,
      fun _ => isUnreserved_decimal _, fun _ => isUnreserved_hex _, by simp⟩
  have graphic : ∀ byte ∈ frameText digest seq total body, Utf8.IsGraphic byte := by
    intro byte member
    rw [frameText, PaymentRequest.intercalate_cons, List.mem_append, List.mem_append,
      List.mem_flatMap] at member
    rcases member with scheme | version | ⟨part, later, member⟩
    · rcases schemeSafe byte scheme with safe | rfl
      · exact isGraphic_of_isUnreserved safe
      · exact ⟨by decide, by decide⟩
    · exact isGraphic_of_isUnreserved (isUnreserved_decimal byte version)
    · rcases List.mem_cons.mp member with rfl | member
      · exact ⟨by decide, by decide⟩
      · exact isGraphic_of_isUnreserved (parts part (List.mem_cons_of_mem _ later) byte member)
  have long : ¬(frameText digest seq total body).length > maxFrameLen := by
    have schemeShort : frameScheme.length = 20 := by simp [frameScheme, airScheme, ascii]
    have versionShort : (Utf8.decimal airVersion).length ≤ 20 := length_decimal_le' (by decide)
    have seqShort : (Utf8.decimal seq).length ≤ 20 := length_decimal_le' (by omega)
    have totalShort : (Utf8.decimal total).length ≤ 20 := length_decimal_le' (by omega)
    have limit : maxFrameLen = 1128 ∧ maxFramePayload = 500 := ⟨rfl, rfl⟩
    rw [frameText, PaymentRequest.intercalate_cons]
    simp only [List.flatMap_cons, List.flatMap_nil, List.length_append, List.length_cons,
      List.length_nil, Hex.length_encode]
    omega
  have split : (List.intercalate [124] [Utf8.decimal airVersion, digest, Utf8.decimal seq,
      Utf8.decimal total, Hex.encode body]).splitOn 124 = [Utf8.decimal airVersion, digest,
        Utf8.decimal seq, Utf8.decimal total, Hex.encode body] := by
    apply List.splitOn_intercalate _ _ (List.cons_ne_nil _ _)
    intro part member bar
    exact absurd (parts part member 124 bar) (by decide)
  simp only [readFrame, Guard.bind_eq_ok, Guard.need_eq_ok, Guard.refuse_eq_ok,
    Utf8.trim_of_isGraphic graphic]
  refine ⟨(), long, _, stripPrefix_append _ _, ?_⟩
  have version : Utf8.parseDecimal (2 ^ 32) (Utf8.decimal airVersion) = some airVersion :=
    Utf8.parseDecimal_decimal (by decide)
  rw [split]
  refine ⟨airVersion, version, (), by simp, digest, rfl, _, rfl, seq,
    parseIndex_decimal (by omega), _, rfl, total, parseIndex_decimal (by omega), _, rfl, body,
    Hex.decode_encode _, (), ?_, (), ?_, rfl⟩
  · simpa [nonempty] using bodyShort
  · omega

/-! ## A transfer -/

namespace Reassembler

variable {P : Primitives} {payload : Bytes}

/-- The frame of a payload with a number counted from zero. -/
def frameAt (P : Primitives) (payload : Bytes) (index : Nat) (chunk : Bytes) : Text :=
  frameText (digestOf P payload) (index + 1) (Pieces.cut maxFramePayload payload).length chunk

theorem length_cut_le (short : payload.length ≤ maxPayload) :
    (Pieces.cut maxFramePayload payload).length ≤ maxFrames := by
  rw [Pieces.length_cut]
  simp only [maxPayload, maxFramePayload, maxFrames] at short ⊢
  omega

theorem frames_eq_ok (nonempty : payload ≠ []) (short : payload.length ≤ maxPayload) :
    frames P payload =
      .ok ((Pieces.cut maxFramePayload payload).mapIdx (frameAt P payload)) := by
  simp only [frames, Guard.bind_eq_ok, Guard.refuse_eq_ok]
  exact ⟨(), nonempty, (), Nat.not_lt.mpr short, (), Nat.not_lt.mpr (length_cut_le short), rfl⟩

/-- Every frame of a payload is read as what it was made of. -/
theorem readFrame_frameAt (short : payload.length ≤ maxPayload) {index : Nat} {chunk : Bytes}
    (given : (Pieces.cut maxFramePayload payload)[index]? = some chunk) :
    readFrame (frameAt P payload index chunk) =
      .ok
        { digest := digestOf P payload
          seq := index + 1
          total := (Pieces.cut maxFramePayload payload).length
          body := chunk } := by
  obtain ⟨inside, rfl⟩ := List.getElem?_eq_some_iff.mp given
  obtain ⟨nonempty, bodyShort⟩ := Pieces.length_of_mem_cut (by decide) (List.getElem_mem inside)
  have digestShort : (digestOf P payload).length ≤ 12 := by
    simp [digestOf]
  exact readFrame_frameText isUnreserved_digestOf digestShort (Nat.succ_pos _) inside
    (length_cut_le short) nonempty bodyShort

/-- A string that is no frame with the digest and the number of frames of this payload. -/
def Foreign (P : Primitives) (payload : Bytes) (text : Text) : Prop :=
  ∀ frame, readFrame text = .ok frame →
    ¬(frame.digest = digestOf P payload ∧
      frame.total = (Pieces.cut maxFramePayload payload).length)

/-- The frame with this number is among the strings. -/
def arrived (P : Primitives) (payload : Bytes) (texts : List Text) (index : Nat) : Bool :=
  ((Pieces.cut maxFramePayload payload)[index]?.map (frameAt P payload index)).any
    (texts.contains ·)

/-- What the reassembler holds after some strings: the pieces whose frames were among them,
or nothing while no frame was. -/
structure Holds (P : Primitives) (payload : Bytes) (texts : List Text)
    (reassembler : Reassembler) : Prop where
  idle : reassembler.digest = none → reassembler.total = 0 ∧
    ∀ text ∈ texts, ∀ frame, readFrame text ≠ .ok frame
  begun : ∀ known, reassembler.digest = some known → known = digestOf P payload ∧
    reassembler.total = (Pieces.cut maxFramePayload payload).length
  collected : Pieces.Collected (Pieces.cut maxFramePayload payload) (arrived P payload texts)
    reassembler.parts

variable {texts : List Text} {reassembler : Reassembler}

theorem arrived_iff {index : Nat} : arrived P payload texts index = true ↔
    ∃ chunk, (Pieces.cut maxFramePayload payload)[index]? = some chunk ∧
      frameAt P payload index chunk ∈ texts := by
  rw [arrived]
  cases (Pieces.cut maxFramePayload payload)[index]? <;> simp

theorem holds_nil : Holds P payload [] {} where
  idle _ := ⟨rfl, by simp⟩
  begun known begun := by cases begun
  collected number piece := by simp [arrived_iff]

/-- Two frames of a payload with one text have one number. -/
theorem frameAt_injective (short : payload.length ≤ maxPayload) {first second : Nat}
    {chunk other : Bytes} (given : (Pieces.cut maxFramePayload payload)[first]? = some chunk)
    (alsoGiven : (Pieces.cut maxFramePayload payload)[second]? = some other)
    (same : frameAt P payload first chunk = frameAt P payload second other) : first = second := by
  have read := readFrame_frameAt (P := P) short given
  rw [same, readFrame_frameAt short alsoGiven] at read
  exact (Nat.succ.inj (congrArg Frame.seq (Except.ok.inj read))).symm

theorem Foreign.not_frame (short : payload.length ≤ maxPayload) {text : Text}
    (foreign : Foreign P payload text) {index : Nat} {chunk : Bytes}
    (given : (Pieces.cut maxFramePayload payload)[index]? = some chunk) :
    frameAt P payload index chunk ≠ text := by
  rintro rfl
  exact foreign _ (readFrame_frameAt short given) ⟨rfl, rfl⟩

/-- A string that is no frame of this payload changes nothing. -/
theorem Holds.acceptForeign (holds : Holds P payload texts reassembler)
    (short : payload.length ≤ maxPayload) {text : Text} (foreign : Foreign P payload text)
    (first : reassembler.digest = none → ∀ frame, readFrame text ≠ .ok frame) :
    (∃ error, reassembler.accept text = (.error error, reassembler)) ∧
      Holds P payload (texts ++ [text]) reassembler := by
  constructor
  · unfold accept
    cases read : readFrame text with
    | error error => exact ⟨error, rfl⟩
    | ok frame =>
        cases known : reassembler.digest with
        | none => exact absurd read (first known frame)
        | some digest =>
            obtain ⟨rfl, total⟩ := holds.begun digest known
            have other : digestOf P payload ≠ frame.digest ∨ reassembler.total ≠ frame.total := by
              rw [total, ← not_and_or]
              exact fun same => foreign frame read ⟨same.1.symm, same.2.symm⟩
            exact ⟨.frameFromAnotherTransfer, by simp only [if_pos other]⟩
  · refine ⟨fun idle => ⟨(holds.idle idle).1, ?_⟩, holds.begun, ?_⟩
    · intro other member
      cases List.mem_append.mp member with
      | inl before => exact (holds.idle idle).2 other before
      | inr last =>
          cases List.mem_singleton.mp last
          exact first idle
    · have same : arrived P payload (texts ++ [text]) = arrived P payload texts := by
        funext index
        rw [Bool.eq_iff_iff, arrived_iff, arrived_iff]
        apply exists_congr
        intro chunk
        apply and_congr_right
        intro given
        rw [List.mem_append, List.mem_singleton, or_iff_left (foreign.not_frame short given)]
      rw [same]
      exact holds.collected

/-- A frame of the payload is taken, for the first time or again. -/
theorem Holds.acceptFrame (holds : Holds P payload texts reassembler)
    (short : payload.length ≤ maxPayload) {index : Nat} {chunk : Bytes}
    (given : (Pieces.cut maxFramePayload payload)[index]? = some chunk) :
    Holds P payload (texts ++ [frameAt P payload index chunk])
      (reassembler.accept (frameAt P payload index chunk)).2 := by
  have read := readFrame_frameAt (P := P) short given
  have later : arrived P payload (texts ++ [frameAt P payload index chunk]) =
      fun other => arrived P payload texts other || other == index := by
    funext other
    rw [Bool.eq_iff_iff, Bool.or_eq_true, arrived_iff, arrived_iff, beq_iff_eq]
    constructor
    · rintro ⟨piece, held, member⟩
      cases List.mem_append.mp member with
      | inl before => exact .inl ⟨piece, held, before⟩
      | inr last =>
          exact .inr (frameAt_injective short held given (List.mem_singleton.mp last))
    · rintro (⟨piece, held, before⟩ | rfl)
      · exact ⟨piece, held, List.mem_append_left _ before⟩
      · exact ⟨chunk, given, List.mem_append_right _ (List.mem_singleton.mpr rfl)⟩
  have collected := holds.collected.insertIfNew given
  rw [← later] at collected
  unfold accept
  rw [read]
  cases known : reassembler.digest with
  | none =>
      refine ⟨nofun, ?_, collected⟩
      rintro _ ⟨⟩
      exact ⟨rfl, rfl⟩
  | some digest =>
      obtain ⟨rfl, total⟩ := holds.begun digest known
      have same : ¬(digestOf P payload ≠ digestOf P payload ∨
          reassembler.total ≠ (Pieces.cut maxFramePayload payload).length) := by
        simp [total]
      simp only [if_neg same]
      refine ⟨nofun, ?_, collected⟩
      rintro _ ⟨⟩
      exact ⟨rfl, total⟩

/-- The transfer is complete exactly if every frame was there. -/
theorem Holds.isComplete_iff (holds : Holds P payload texts reassembler) (nonempty : payload ≠ [])
    (short : payload.length ≤ maxPayload) :
    reassembler.isComplete = true ↔
      ∀ index < (Pieces.cut maxFramePayload payload).length,
        arrived P payload texts index = true := by
  have many : 0 < (Pieces.cut maxFramePayload payload).length := by
    have bytes := List.length_pos_of_ne_nil nonempty
    rw [Pieces.length_cut]
    simp only [maxFramePayload]
    omega
  rw [isComplete, Bool.and_eq_true, decide_eq_true_eq, beq_iff_eq]
  cases known : reassembler.digest with
  | none =>
      obtain ⟨zero, unread⟩ := holds.idle known
      rw [zero]
      constructor
      · intro complete
        exact absurd complete.1 (lt_irrefl 0)
      · intro all
        obtain ⟨chunk, given, member⟩ := arrived_iff.mp (all 0 many)
        exact absurd (readFrame_frameAt short given) (unread _ member _)
  | some digest =>
      rw [(holds.begun digest known).2, ← holds.collected.size_eq_iff]
      exact and_iff_right many

/-- Once every frame was there, the payload is given back. -/
theorem Holds.finish_eq (holds : Holds P payload texts reassembler) (nonempty : payload ≠ [])
    (short : payload.length ≤ maxPayload) :
    reassembler.finish P =
      if reassembler.isComplete then .ok payload
      else .error (.incompleteTransfer reassembler.parts.size reassembler.total) := by
  cases complete : reassembler.isComplete with
  | false => simp [finish, complete]
  | true =>
      have whole := holds.collected.values_eq ((holds.isComplete_iff nonempty short).mp complete)
      cases known : reassembler.digest with
      | none =>
          rw [isComplete, (holds.idle known).1] at complete
          cases complete
      | some digest =>
          have same := (holds.begun digest known).1
          simp [finish, complete, whole, Pieces.flatten_cut, maxFramePayload, known, same]

theorem isOk_accept_empty {text : Text} :
    (accept {} text).1.isOk = true ↔ ∃ frame, readFrame text = .ok frame := by
  unfold accept
  cases readFrame text with
  | error error => simp [Except.isOk, Except.toBool]
  | ok frame => simp [Except.isOk, Except.toBool]

/-- While nothing was accepted, a foreign string is not accepted either. -/
theorem Holds.unread (holds : Holds P payload texts reassembler)
    (short : payload.length ≤ maxPayload) {text : Text} (foreign : Foreign P payload text)
    {rest : List Text}
    (first : ∀ other, (texts ++ text :: rest).find? (fun text => (accept {} text).1.isOk) =
      some other → other ∈ (Pieces.cut maxFramePayload payload).mapIdx (frameAt P payload))
    (idle : reassembler.digest = none) (frame : Frame) : readFrame text ≠ .ok frame := by
  intro read
  have none_before : texts.find? (fun text => (accept {} text).1.isOk) = none := by
    rw [List.find?_eq_none]
    intro other member accepted
    obtain ⟨seen, read⟩ := isOk_accept_empty.mp accepted
    exact (holds.idle idle).2 other member seen read
  have found : (texts ++ text :: rest).find? (fun text => (accept {} text).1.isOk) = some text := by
    rw [List.find?_append, none_before, Option.none_or]
    exact List.find?_cons_of_pos (isOk_accept_empty.mpr ⟨frame, read⟩)
  have own := first text found
  obtain ⟨index, inside, rfl⟩ := List.mem_mapIdx.mp own
  exact foreign.not_frame short (List.getElem?_eq_getElem inside) rfl

/-- After any strings of which each is a frame of the payload or none of its transfer, and of
which the first that is accepted is a frame of the payload. -/
theorem holds_collect (short : payload.length ≤ maxPayload)
    (mixed : ∀ text ∈ texts,
      text ∈ (Pieces.cut maxFramePayload payload).mapIdx (frameAt P payload) ∨
        Foreign P payload text)
    (first : ∀ text, texts.find? (fun text => (accept {} text).1.isOk) = some text →
      text ∈ (Pieces.cut maxFramePayload payload).mapIdx (frameAt P payload)) :
    Holds P payload texts (collect texts) := by
  induction texts using List.reverseRecOn with
  | nil => exact holds_nil
  | append_singleton before text ih =>
      have holds : Holds P payload before (collect before) := by
        apply ih
        · exact fun other member => mixed other (List.mem_append_left _ member)
        · intro other found
          apply first
          rw [List.find?_append, found]
          rfl
      rw [collect_append_singleton]
      cases mixed text (List.mem_append_right _ (List.mem_singleton.mpr rfl)) with
      | inl own =>
          obtain ⟨index, inside, rfl⟩ := List.mem_mapIdx.mp own
          exact holds.acceptFrame short (List.getElem?_eq_getElem inside)
      | inr foreign =>
          obtain ⟨⟨error, refused⟩, later⟩ :=
            holds.acceptForeign short foreign (holds.unread short foreign first)
          rw [refused]
          exact later

/-- Whatever was collected, a payload is given back only under its own digest. -/
theorem digest_of_finish {part : Bytes} (finished : reassembler.finish P = .ok part) :
    reassembler.digest = some (digestOf P part) := by
  simp only [finish] at finished
  split at finished
  · cases finished
  · split at finished
    · cases finished
    · next same =>
        cases finished
        exact (not_not.mp same).symm

end Reassembler

namespace Sample

end Sample

end Nightfall
