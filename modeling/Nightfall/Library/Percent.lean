import Nightfall.Library.Hex
import Nightfall.Library.Lossy

/-!
# Percent-encoding

Texts inside links.  Everything outside the unreserved characters is escaped, so an encoded
text has no separator of a link in it.
-/

namespace Percent

open Utf8 (Text)

/-- Letters, digits and `-`, `.`, `_`, `~`. -/
def isUnreserved (byte : UInt8) : Bool :=
  (48 ≤ byte ∧ byte ≤ 57) ∨ (65 ≤ byte ∧ byte ≤ 90) ∨ (97 ≤ byte ∧ byte ≤ 122) ∨
    byte = 45 ∨ byte = 46 ∨ byte = 95 ∨ byte = 126

/-- The upper-case digit of a value below 16. -/
def upperDigit (value : Nat) : UInt8 :=
  if value < 10 then UInt8.ofNat (48 + value) else UInt8.ofNat (55 + value)

def encodeByte (byte : UInt8) : Text :=
  if isUnreserved byte then [byte]
  else [37, upperDigit (byte.toNat / 16), upperDigit (byte.toNat % 16)]

def encode (text : Text) : Text :=
  text.flatMap encodeByte

/-- `u8::from_str_radix` of two characters.  A plus sign may stand before a digit. -/
def pairValue (high low : UInt8) : Option UInt8 :=
  if high = 43 then (Hex.digitValue low).map UInt8.ofNat
  else do
    let high ← Hex.digitValue high
    let low ← Hex.digitValue low
    some (UInt8.ofNat (16 * high + low))

def decodeBytes : Text → Option Text
  | [] => some []
  | byte :: rest =>
      if byte = 37 then
        match rest with
        | high :: low :: rest => do
            let byte ← pairValue high low
            let bytes ← decodeBytes rest
            some (byte :: bytes)
        | _ => none
      else (decodeBytes rest).map (byte :: ·)

/-- The decoded bytes have to be a text. -/
def decode (raw : Text) : Option Text :=
  (decodeBytes raw).filter Utf8.isValid

theorem digitValue_upperDigit {value : Nat} (small : value < 16) :
    Hex.digitValue (upperDigit value) = some value := by
  interval_cases value <;> rfl

theorem upperDigit_ne_plus {value : Nat} (small : value < 16) : upperDigit value ≠ 43 := by
  interval_cases value <;> decide

theorem pairValue_upperDigit (byte : UInt8) :
    pairValue (upperDigit (byte.toNat / 16)) (upperDigit (byte.toNat % 16)) = some byte := by
  have bounded := byte.toNat_lt
  have high : byte.toNat / 16 < 16 := Nat.div_lt_of_lt_mul bounded
  have low : byte.toNat % 16 < 16 := Nat.mod_lt _ (by decide)
  have halves : 16 * (byte.toNat / 16) + byte.toNat % 16 = byte.toNat := Nat.div_add_mod _ 16
  simp only [pairValue, upperDigit_ne_plus high, if_false, digitValue_upperDigit high,
    digitValue_upperDigit low, Option.bind_eq_bind, Option.bind_some, halves,
    UInt8.ofNat_toNat]

theorem decodeBytes_of_ne {byte : UInt8} (other : byte ≠ 37) (rest : Text) :
    decodeBytes (byte :: rest) = (decodeBytes rest).map (byte :: ·) := by
  match rest with
  | [] => simp [decodeBytes, other]
  | [_] => simp [decodeBytes, other]
  | _ :: _ :: _ => rw [decodeBytes, if_neg other]

/-- One escaped byte is read back. -/
theorem decodeBytes_encodeByte (byte : UInt8) (rest : Text) :
    decodeBytes (encodeByte byte ++ rest) = (decodeBytes rest).map (byte :: ·) := by
  rw [encodeByte]
  split
  · next safe =>
      have other : byte ≠ 37 := by
        rintro rfl
        exact absurd safe (by decide)
      exact decodeBytes_of_ne other rest
  · rw [List.cons_append, List.cons_append, List.cons_append, List.nil_append, decodeBytes,
      if_pos rfl]
    simp only [pairValue_upperDigit, Option.bind_eq_bind, Option.bind_some]
    cases decodeBytes rest with
    | none => rfl
    | some bytes => rfl

theorem decodeBytes_encode (text : Text) : decodeBytes (encode text) = some text := by
  induction text with
  | nil => rfl
  | cons byte rest ih =>
      rw [encode, List.flatMap_cons, decodeBytes_encodeByte, ← encode, ih]
      rfl

/-- A text is read back. -/
theorem decode_encode {text : Text} (valid : Utf8.isValid text = true) :
    decode (encode text) = some text := by
  simp [decode, decodeBytes_encode, valid]

/-- Characters that an encoded text is made of. -/
def IsPlain (byte : UInt8) : Prop :=
  isUnreserved byte = true ∨ byte = 37

theorem isUnreserved_upperDigit {value : Nat} (small : value < 16) :
    isUnreserved (upperDigit value) = true := by
  interval_cases value <;> rfl

theorem isPlain_encode {text : Text} : ∀ byte ∈ encode text, IsPlain byte := by
  intro byte member
  obtain ⟨source, _, member⟩ := List.mem_flatMap.mp member
  have bounded := source.toNat_lt
  rw [encodeByte] at member
  split at member
  · next safe =>
      obtain rfl := List.mem_singleton.mp member
      exact .inl safe
  · simp only [List.mem_cons, List.not_mem_nil, or_false] at member
    rcases member with rfl | rfl | rfl
    · exact .inr rfl
    · exact .inl (isUnreserved_upperDigit (Nat.div_lt_of_lt_mul bounded))
    · exact .inl (isUnreserved_upperDigit (Nat.mod_lt _ (by decide)))

theorem IsPlain.isGraphic {byte : UInt8} (plain : IsPlain byte) : Utf8.IsGraphic byte := by
  have safe : isUnreserved byte = true → Utf8.IsGraphic byte := by
    simp only [isUnreserved, Utf8.IsGraphic, decide_eq_true_eq, UInt8.le_iff_toNat_le,
      ← UInt8.toNat_inj, UInt8.reduceToNat]
    omega
  rcases plain with plain | rfl
  · exact safe plain
  · exact ⟨by decide, by decide⟩

theorem length_encode_le (text : Text) : (encode text).length ≤ 3 * text.length := by
  induction text with
  | nil => exact le_rfl
  | cons byte rest ih =>
      have here : (encodeByte byte).length ≤ 3 := by
        rw [encodeByte]
        split <;> simp
      rw [encode] at ih ⊢
      rw [List.flatMap_cons, List.length_append, List.length_cons]
      omega

/-- Unreserved characters stand for themselves. -/
theorem decode_of_isUnreserved {text : Text}
    (safe : ∀ byte ∈ text, isUnreserved byte = true) : decode text = some text := by
  have same : encode text = text := by
    induction text with
    | nil => rfl
    | cons byte rest ih =>
        rw [encode, List.flatMap_cons, ← encode, encodeByte,
          if_pos (safe byte List.mem_cons_self),
          ih fun other member => safe other (List.mem_cons_of_mem _ member)]
        rfl
  have graphic : ∀ byte ∈ text, Utf8.IsGraphic byte := fun byte member =>
    IsPlain.isGraphic (.inl (safe byte member))
  have decoded := decode_encode (Utf8.isValid_of_isGraphic graphic)
  rwa [same] at decoded

/-! ## Separators -/

/-- `split_once`: the text before and after the first separator. -/
def splitOnce (separator : UInt8) (text : Text) : Option (Text × Text) :=
  match text.span (· ≠ separator) with
  | (_, []) => none
  | (front, _ :: back) => some (front, back)

theorem splitOnce_append {separator : UInt8} {front : Text} (free : separator ∉ front)
    (back : Text) : splitOnce separator (front ++ separator :: back) = some (front, back) := by
  have none_before : ∀ byte ∈ front, decide (byte ≠ separator) = true := by
    intro byte member
    exact decide_eq_true fun same => free (same ▸ member)
  rw [splitOnce, List.span_eq_takeWhile_dropWhile, List.takeWhile_append_of_pos none_before,
    List.dropWhile_append_of_pos none_before]
  simp

theorem splitOnce_eq_some {separator : UInt8} {text front back : Text} :
    splitOnce separator text = some (front, back) ↔
      text = front ++ separator :: back ∧ separator ∉ front := by
  constructor
  · intro found
    rw [splitOnce, List.span_eq_takeWhile_dropWhile] at found
    have whole := List.takeWhile_append_dropWhile (p := (decide <| · ≠ separator)) (l := text)
    have free : separator ∉ text.takeWhile fun byte => decide (byte ≠ separator) := by
      intro member
      simpa using List.mem_takeWhile_imp member
    cases rest : text.dropWhile fun byte => decide (byte ≠ separator) with
    | nil =>
        rw [rest] at found
        cases found
    | cons byte later =>
        have stops := List.head?_dropWhile_not (fun byte => decide (byte ≠ separator)) text
        rw [rest] at found whole stops
        simp only [List.head?_cons, ne_eq, decide_not, Bool.not_eq_eq_eq_not, Bool.not_false,
          decide_eq_true_eq] at stops
        rw [stops] at whole
        cases found
        exact ⟨whole.symm, free⟩
  · rintro ⟨rfl, free⟩
    exact splitOnce_append free back

end Percent
