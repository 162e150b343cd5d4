import Mathlib

/-!
# UTF-8 texts

White space at the ends of a text and decimal numbers, on the bytes of the text.
-/

namespace Utf8

abbrev Text := List UInt8

/-- The encodings of the characters that count as white space. -/
def spaces : List Text :=
  [[9], [10], [11], [12], [13], [32], [0xC2, 0x85], [0xC2, 0xA0], [0xE1, 0x9A, 0x80],
    [0xE2, 0x80, 0x80], [0xE2, 0x80, 0x81], [0xE2, 0x80, 0x82], [0xE2, 0x80, 0x83],
    [0xE2, 0x80, 0x84], [0xE2, 0x80, 0x85], [0xE2, 0x80, 0x86], [0xE2, 0x80, 0x87],
    [0xE2, 0x80, 0x88], [0xE2, 0x80, 0x89], [0xE2, 0x80, 0x8A], [0xE2, 0x80, 0xA8],
    [0xE2, 0x80, 0xA9], [0xE2, 0x80, 0xAF], [0xE2, 0x81, 0x9F], [0xE3, 0x80, 0x80]]

/-- Drop leading white space.  The bound is the length of the text. -/
def trimStartFrom : Nat → Text → Text
  | 0, text => text
  | fuel + 1, text =>
      match spaces.find? (·.isPrefixOf text) with
      | some space => trimStartFrom fuel (text.drop space.length)
      | none => text

/-- Drop trailing white space.  The bound is the length of the text. -/
def trimEndFrom : Nat → Text → Text
  | 0, text => text
  | fuel + 1, text =>
      match spaces.find? (·.isSuffixOf text) with
      | some space => trimEndFrom fuel (text.take (text.length - space.length))
      | none => text

def trim (text : Text) : Text :=
  let text := trimStartFrom text.length text
  trimEndFrom text.length text

/-- Nothing but white space. -/
def isBlank (text : Text) : Bool :=
  (trimStartFrom text.length text).isEmpty

/-- A text that begins with a brace is not blank. -/
theorem isBlank_brace (rest : Text) : isBlank (123 :: rest) = false := by
  simp [isBlank, trimStartFrom, spaces, List.isPrefixOf]

/-- A character other than white space, on one byte. -/
def IsGraphic (byte : UInt8) : Prop :=
  33 ≤ byte ∧ byte ≤ 126

/-- White space neither begins nor ends with a graphic character. -/
theorem not_isGraphic_of_mem_spaces {space : Text} (isSpace : space ∈ spaces) :
    (∀ byte ∈ space.head?, ¬IsGraphic byte) ∧ ∀ byte ∈ space.getLast?, ¬IsGraphic byte := by
  revert space
  unfold IsGraphic spaces
  decide +kernel

theorem trimStartFrom_graphic {byte : UInt8} (graphic : IsGraphic byte) (fuel : Nat)
    (rest : Text) : trimStartFrom fuel (byte :: rest) = byte :: rest := by
  cases fuel with
  | zero => rfl
  | succ fuel =>
      rw [trimStartFrom, List.find?_eq_none.mpr]
      intro space isSpace
      rw [List.isPrefixOf_iff_prefix]
      rintro ⟨after, shape⟩
      cases space with
      | nil => exact absurd isSpace (by decide)
      | cons first tail =>
          obtain ⟨rfl, _⟩ := List.cons.inj shape
          exact (not_isGraphic_of_mem_spaces isSpace).1 first rfl graphic

theorem trimEndFrom_graphic {byte : UInt8} (graphic : IsGraphic byte) (fuel : Nat)
    (front : Text) : trimEndFrom fuel (front ++ [byte]) = front ++ [byte] := by
  cases fuel with
  | zero => rfl
  | succ fuel =>
      rw [trimEndFrom, List.find?_eq_none.mpr]
      intro space isSpace
      rw [List.isSuffixOf_iff_suffix]
      rintro ⟨before, shape⟩
      cases last : space.getLast? with
      | none =>
          obtain rfl := List.getLast?_eq_none_iff.mp last
          exact absurd isSpace (by decide)
      | some other =>
          have same := congrArg List.getLast? shape
          rw [List.getLast?_append, last, Option.some_or, List.getLast?_concat] at same
          obtain rfl := Option.some.inj same
          exact (not_isGraphic_of_mem_spaces isSpace).2 other last graphic

/-- A text of graphic characters has nothing to trim. -/
theorem trim_of_isGraphic {text : Text} (graphic : ∀ byte ∈ text, IsGraphic byte) :
    trim text = text := by
  rcases List.eq_nil_or_concat text with rfl | ⟨front, last, rfl⟩
  · rfl
  · have ending := trimEndFrom_graphic (graphic last (by simp)) (front ++ [last]).length front
    have starting : trimStartFrom (front ++ [last]).length (front ++ [last]) = front ++ [last] := by
      cases front with
      | nil => exact trimStartFrom_graphic (graphic last (by simp)) _ []
      | cons first rest => exact trimStartFrom_graphic (graphic first (by simp)) _ _
    rw [List.concat_eq_append, trim]
    simp only [starting, ending]

/-- A line between graphic characters loses its line break and nothing else. -/
theorem trim_line {first last : UInt8} (starts : IsGraphic first) (ends : IsGraphic last)
    (inner : Text) :
    trim (first :: (inner ++ [last]) ++ [10]) = first :: (inner ++ [last]) := by
  have lineBreak : spaces.find? (·.isSuffixOf (first :: (inner ++ [last]) ++ [10])) =
      some [10] := by
    have other : List.isSuffixOf [9] (first :: (inner ++ [last]) ++ [10]) = false := by
      rw [Bool.eq_false_iff, ne_eq, List.isSuffixOf_iff_suffix]
      rintro ⟨before, shape⟩
      exact absurd (List.append_inj_right' shape rfl) (by decide)
    have here : List.isSuffixOf [10] (first :: (inner ++ [last]) ++ [10]) = true :=
      List.isSuffixOf_iff_suffix.mpr ⟨_, rfl⟩
    rw [spaces, List.find?_cons, other, List.find?_cons, here]
  have whole : (first :: (inner ++ [last]) ++ [10]).length = (inner ++ [last]).length + 2 := by
    simp
  have cut : (first :: (inner ++ [last]) ++ [10]).take
      ((inner ++ [last]).length + 2 - [(10 : UInt8)].length) = first :: inner ++ [last] := by
    rw [List.take_append_of_le_length (by simp), List.take_of_length_le (by simp)]
    rfl
  have starting : trimStartFrom ((inner ++ [last]).length + 2)
      (first :: (inner ++ [last]) ++ [10]) = first :: (inner ++ [last]) ++ [10] :=
    trimStartFrom_graphic starts _ _
  rw [trim]
  simp only [whole, starting]
  rw [trimEndFrom, lineBreak]
  simp only [whole, cut]
  exact trimEndFrom_graphic ends _ _

/-! ## Valid texts -/

/-- How many continuation bytes are missing, and the range of the next one. -/
structure Pending where
  missing : Nat
  low : UInt8
  high : UInt8

/-- Where the next byte leads. -/
def Pending.next (pending : Pending) (byte : UInt8) : Option Pending :=
  match pending.missing with
  | missing + 1 =>
      if pending.low ≤ byte ∧ byte ≤ pending.high then some ⟨missing, 0x80, 0xBF⟩ else none
  | 0 =>
      if byte ≤ 0x7F then some ⟨0, 0x80, 0xBF⟩
      else if 0xC2 ≤ byte ∧ byte ≤ 0xDF then some ⟨1, 0x80, 0xBF⟩
      else if byte = 0xE0 then some ⟨2, 0xA0, 0xBF⟩
      else if byte = 0xED then some ⟨2, 0x80, 0x9F⟩
      else if 0xE1 ≤ byte ∧ byte ≤ 0xEF then some ⟨2, 0x80, 0xBF⟩
      else if byte = 0xF0 then some ⟨3, 0x90, 0xBF⟩
      else if 0xF1 ≤ byte ∧ byte ≤ 0xF3 then some ⟨3, 0x80, 0xBF⟩
      else if byte = 0xF4 then some ⟨3, 0x80, 0x8F⟩
      else none

/-- The bytes are a text. -/
def isValid (text : Text) : Bool :=
  match text.foldlM Pending.next ⟨0, 0x80, 0xBF⟩ with
  | some pending => pending.missing = 0
  | none => false

/-- Characters on one byte make a valid text. -/
theorem isValid_of_isGraphic {text : Text} (graphic : ∀ byte ∈ text, IsGraphic byte) :
    isValid text = true := by
  have folded : text.foldlM Pending.next ⟨0, 0x80, 0xBF⟩ = some ⟨0, 0x80, 0xBF⟩ := by
    induction text with
    | nil => rfl
    | cons byte rest ih =>
        have ascii : byte ≤ 0x7F := UInt8.le_trans (graphic byte List.mem_cons_self).2 (by decide)
        rw [List.foldlM_cons, Pending.next]
        simp only [ascii, if_true, Option.bind_eq_bind, Option.bind_some]
        exact ih fun other member => graphic other (List.mem_cons_of_mem _ member)
  rw [isValid, folded]
  rfl

/-! ## Decimal numbers -/

/-- The decimal digits of a number. -/
def decimal (number : Nat) : Text :=
  if number = 0 then [48]
  else (Nat.digits 10 number).reverse.map fun digit => UInt8.ofNat (48 + digit)

/-- Append a digit to the number read so far. -/
def pushDigit (total : Nat) (char : UInt8) : Option Nat :=
  if 48 ≤ char.toNat ∧ char.toNat ≤ 57 then some (10 * total + (char.toNat - 48)) else none

/-- Read a decimal number below a bound, with an optional plus sign. -/
def parseDecimal (bound : Nat) (text : Text) : Option Nat :=
  let digits := if text.head? = some 43 then text.tail else text
  if digits = [] then none
  else (digits.foldlM pushDigit 0).filter (· < bound)

theorem foldlM_pushDigit {digits : List Nat} (small : ∀ digit ∈ digits, digit < 10) :
    (digits.reverse.map fun digit => UInt8.ofNat (48 + digit)).foldlM pushDigit 0 =
      some (Nat.ofDigits 10 digits) := by
  induction digits with
  | nil => rfl
  | cons digit rest ih =>
      have here := small digit List.mem_cons_self
      have code : (UInt8.ofNat (48 + digit)).toNat = 48 + digit := by
        rw [UInt8.toNat_ofNat']
        omega
      rw [List.reverse_cons, List.map_append, List.foldlM_append,
        ih fun other member => small other (List.mem_cons_of_mem _ member)]
      simp only [List.map_cons, List.map_nil, List.foldlM_cons, List.foldlM_nil, bind,
        Option.bind_some, pushDigit, code]
      rw [if_pos (by omega), Nat.ofDigits_cons]
      simp only [Option.bind_some, pure, Option.some.injEq]
      omega

theorem parseDecimal_decimal {bound number : Nat} (small : number < bound) :
    parseDecimal bound (decimal number) = some number := by
  unfold decimal
  split
  · next zero =>
      subst zero
      simp [parseDecimal, pushDigit, small]
  · next nonzero =>
      have digits : ∀ digit ∈ Nat.digits 10 number, digit < 10 := fun digit member =>
        Nat.digits_lt_base (by norm_num) member
      have nonempty : (Nat.digits 10 number).reverse ≠ [] := by
        simpa using Nat.digits_ne_nil_iff_ne_zero.mpr nonzero
      have noSign : ((Nat.digits 10 number).reverse.map fun digit =>
          UInt8.ofNat (48 + digit)).head? ≠ some 43 := by
        intro sign
        obtain ⟨digit, rest, shape⟩ := List.exists_cons_of_ne_nil nonempty
        have member : digit ∈ Nat.digits 10 number := by
          rw [← List.mem_reverse, shape]
          exact List.mem_cons_self
        have bounded := digits digit member
        rw [shape] at sign
        have code := congrArg UInt8.toNat (Option.some.inj sign)
        rw [UInt8.toNat_ofNat'] at code
        simp at code
        omega
      have value := foldlM_pushDigit digits
      rw [Nat.ofDigits_digits] at value
      simp only [parseDecimal, if_neg noSign, value]
      rw [if_neg (by simpa using nonempty)]
      simp [small]

end Utf8
