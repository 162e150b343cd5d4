import Nightfall.Types
import Nightfall.Library.Guard
import Nightfall.Library.Machine
import Nightfall.Library.Decimal
import Nightfall.Library.Percent

/-!
# Typed amounts

`parseNight` reads what a person typed as a number of darks.  The grammar is stated apart
from it: digits with at most one separator, which name one rational number.
-/

namespace Nightfall

open Utf8 (Text)

/-- `whole.frac` with eight decimals. -/
def Amount.decimalString (darks : UInt64) : Text :=
  let whole := darks / darksPerNight
  let frac := darks % darksPerNight
  Utf8.decimal whole.toNat ++ 46 :: Utf8.decimalPadded 8 frac.toNat

/-- The most decimal places NIGHT has. -/
def decimals : Nat := 8

/-- Why a typed amount was refused. -/
inductive AmountError where
  | empty
  | negative
  | signed
  | notDigits
  | twoPoints
  | tooPrecise
  | zero
  | tooLarge
  deriving DecidableEq

/-- A comma is a decimal point. -/
def pointed (byte : UInt8) : UInt8 :=
  if byte = 44 then 46 else byte

/-- The part of a text before the first point, and the part behind it. -/
def splitPoint (text : Text) : Text × Text :=
  (Percent.splitOnce 46 text).getD (text, [])

/-- Fill up to eight places. -/
def padded (frac : Text) : Text :=
  frac ++ List.replicate (decimals - frac.length) 48

/-- The digits before the point. -/
def readWhole (whole : Text) : Except AmountError Nat :=
  if whole = [] then .ok 0 else Guard.need (Utf8.parseDecimal (2 ^ 64) whole) .tooLarge

/-- Read a decimal NIGHT amount as a whole number of darks. -/
def parseNight (text : Text) : Except AmountError UInt64 := do
  let normalised := (Utf8.trim text).map pointed
  Guard.refuse (normalised = []) .empty
  Guard.refuse (normalised.head? = some 45) .negative
  Guard.refuse (normalised.head? = some 43) .signed
  let whole := (splitPoint normalised).1
  let frac := (splitPoint normalised).2
  Guard.refuse (46 ∈ frac) .twoPoints
  Guard.refuse (whole = [] ∧ frac = []) .notDigits
  Guard.refuse (¬(∀ byte ∈ whole, Utf8.IsDigit byte) ∨ ¬∀ byte ∈ frac, Utf8.IsDigit byte)
    .notDigits
  Guard.refuse (frac.length > decimals) .tooPrecise
  let whole ← readWhole whole
  -- eight digits always fit
  let frac := (Utf8.parseDecimal (2 ^ 64) (padded frac)).getD 0
  let darks ← Guard.need
    ((Machine.checkedMul (UInt64.ofNat whole) darksPerNight).bind fun darks =>
      Machine.checkedAdd darks (UInt64.ofNat frac)) .tooLarge
  Guard.refuse (darks = 0) .zero
  Guard.refuse (darks > maxSupplyDarks) .tooLarge
  .ok darks

/-! ## The grammar -/

/-- The text is digits with at most one separator, and at most eight of them behind it. -/
structure Spells (text whole frac : Text) : Prop where
  shape : (text = whole ∧ frac = []) ∨
    ∃ separator, (separator = 46 ∨ separator = 44) ∧ text = whole ++ separator :: frac
  wholeDigits : ∀ byte ∈ whole, Utf8.IsDigit byte
  fracDigits : ∀ byte ∈ frac, Utf8.IsDigit byte
  written : ¬(whole = [] ∧ frac = [])
  precise : frac.length ≤ decimals

/-- The number that the digits before and behind the point name. -/
def nights (whole frac : Text) : ℚ :=
  Utf8.digitsValue whole + Utf8.digitsValue frac / 10 ^ frac.length

section Grammar

variable {text whole frac : Text}

theorem not_isDigit_point : ¬Utf8.IsDigit 46 := by decide

theorem point_not_mem (digits : ∀ byte ∈ text, Utf8.IsDigit byte) : 46 ∉ text :=
  fun member => not_isDigit_point (digits 46 member)

theorem pointed_digit {byte : UInt8} (digit : Utf8.IsDigit byte) : pointed byte = byte := by
  refine if_neg fun comma => ?_
  rw [comma] at digit
  exact absurd digit (by decide)

theorem map_pointed (digits : ∀ byte ∈ text, Utf8.IsDigit byte) : text.map pointed = text :=
  (List.map_congr_left fun byte member => pointed_digit (digits byte member)).trans
    (List.map_id _)

/-- Only a digit counts as a digit. -/
theorem eq_of_map_pointed (same : text.map pointed = whole)
    (digits : ∀ byte ∈ whole, Utf8.IsDigit byte) : text = whole := by
  have plain : ∀ byte ∈ text, pointed byte = byte := by
    intro byte member
    refine if_neg fun comma => ?_
    have digit := digits (pointed byte) (same ▸ List.mem_map_of_mem member)
    rw [pointed, if_pos comma] at digit
    exact not_isDigit_point digit
  rw [← same, List.map_congr_left plain, List.map_id']

theorem splitPoint_of_free (free : 46 ∉ text) : splitPoint text = (text, []) := by
  cases found : Percent.splitOnce 46 text with
  | none => rw [splitPoint, found, Option.getD_none]
  | some parts =>
      have shape := (Percent.splitOnce_eq_some.mp found).1
      exact absurd (by simp [shape]) free

/-- The parser splits a text where the grammar does. -/
theorem spells_iff : Spells text whole frac ↔
    splitPoint (text.map pointed) = (whole, frac) ∧
      ¬(whole = [] ∧ frac = []) ∧
      ((∀ byte ∈ whole, Utf8.IsDigit byte) ∧ ∀ byte ∈ frac, Utf8.IsDigit byte) ∧
      frac.length ≤ decimals := by
  constructor
  · rintro ⟨shape, wholeDigits, fracDigits, written, precise⟩
    refine ⟨?_, written, ⟨wholeDigits, fracDigits⟩, precise⟩
    rcases shape with ⟨rfl, rfl⟩ | ⟨separator, known, rfl⟩
    · rw [map_pointed wholeDigits, splitPoint_of_free (point_not_mem wholeDigits)]
    · have point : pointed separator = 46 := by
        rcases known with rfl | rfl
        · rfl
        · rfl
      rw [List.map_append, List.map_cons, map_pointed wholeDigits, map_pointed fracDigits, point,
        splitPoint, Percent.splitOnce_append (point_not_mem wholeDigits), Option.getD_some]
  · rintro ⟨split, written, ⟨wholeDigits, fracDigits⟩, precise⟩
    refine ⟨?_, wholeDigits, fracDigits, written, precise⟩
    cases found : Percent.splitOnce 46 (text.map pointed) with
    | none =>
        rw [splitPoint, found, Option.getD_none, Prod.mk.injEq] at split
        exact .inl ⟨eq_of_map_pointed split.1 wholeDigits, split.2.symm⟩
    | some parts =>
        rw [splitPoint, found, Option.getD_some] at split
        rw [split, Percent.splitOnce_eq_some, List.map_eq_append_iff] at found
        obtain ⟨⟨front, rest, rfl, frontSame, restSame⟩, _⟩ := found
        obtain ⟨separator, back, rfl, point, backSame⟩ := List.map_eq_cons_iff.mp restSame
        refine .inr ⟨separator, ?_, ?_⟩
        · unfold pointed at point
          split at point
          next comma => exact .inr comma
          next other => exact .inl point
        · rw [eq_of_map_pointed frontSame wholeDigits, eq_of_map_pointed backSame fracDigits]

/-- No text has two readings. -/
theorem Spells.unique {otherWhole otherFrac : Text} (spells : Spells text whole frac)
    (others : Spells text otherWhole otherFrac) : whole = otherWhole ∧ frac = otherFrac := by
  have same := (spells_iff.mp spells).1.symm.trans (spells_iff.mp others).1
  exact Prod.mk.inj same

/-- A text of the grammar begins with a digit or a separator. -/
theorem Spells.unsigned (spells : Spells text whole frac) {sign : UInt8}
    (known : sign = 45 ∨ sign = 43) : (text.map pointed).head? ≠ some sign := by
  intro signed
  have first : sign = 46 ∨ Utf8.IsDigit sign := by
    rcases spells.shape with ⟨rfl, _⟩ | ⟨separator, separates, rfl⟩
    · rw [map_pointed spells.wholeDigits] at signed
      exact .inr (spells.wholeDigits sign (List.mem_of_mem_head? signed))
    · rw [List.map_append, map_pointed spells.wholeDigits] at signed
      cases whole with
      | nil =>
          rcases separates with rfl | rfl
          · exact .inl (Option.some.inj signed).symm
          · exact .inl (Option.some.inj signed).symm
      | cons byte rest =>
          obtain rfl := Option.some.inj signed
          exact .inr (spells.wholeDigits byte List.mem_cons_self)
  rcases known with rfl | rfl
  · exact absurd first (by decide)
  · exact absurd first (by decide)

/-! ## Exactness -/

/-- The darks that a text of the grammar names. -/
def darksOf (whole frac : Text) : Nat :=
  Utf8.digitsValue whole * 10 ^ decimals + Utf8.digitsValue (padded frac)

/-- Padding moves the point and nothing else. -/
theorem darksOf_eq (precise : frac.length ≤ decimals) :
    (darksOf whole frac : ℚ) = 10 ^ decimals * nights whole frac := by
  have scale : (10 : ℚ) ^ decimals = 10 ^ (decimals - frac.length) * 10 ^ frac.length := by
    rw [← pow_add, Nat.sub_add_cancel precise]
  rw [darksOf, padded, Utf8.digitsValue_append, Utf8.digitsValue_replicate_zero,
    List.length_replicate, nights, mul_add, Nat.add_zero]
  push_cast
  rw [mul_comm (10 ^ decimals : ℚ), add_right_inj]
  rw [scale]
  field_simp

theorem parse_padded (digits : ∀ byte ∈ frac, Utf8.IsDigit byte)
    (precise : frac.length ≤ decimals) :
    (Utf8.parseDecimal (2 ^ 64) (padded frac)).getD 0 = Utf8.digitsValue (padded frac) ∧
      Utf8.digitsValue (padded frac) < 10 ^ decimals := by
  have each : ∀ byte ∈ padded frac, Utf8.IsDigit byte := by
    intro byte member
    rcases List.mem_append.mp member with typed | zero
    · exact digits byte typed
    · rw [List.eq_of_mem_replicate zero]
      decide
  have length : (padded frac).length = decimals := by
    rw [padded, List.length_append, List.length_replicate, Nat.add_sub_cancel' precise]
  have nonempty : padded frac ≠ [] := List.ne_nil_of_length_pos (length ▸ by decide)
  have small := Utf8.digitsValue_lt each
  rw [length] at small
  have fits : Utf8.digitsValue (padded frac) < 2 ^ 64 := small.trans (by decide)
  rw [Utf8.parseDecimal_digits each nonempty, Option.filter_some, if_pos (by simpa using fits)]
  exact ⟨rfl, small⟩

theorem readWhole_eq_ok (digits : ∀ byte ∈ whole, Utf8.IsDigit byte) {number : Nat} :
    readWhole whole = .ok number ↔ Utf8.digitsValue whole = number ∧ number < 2 ^ 64 := by
  unfold readWhole
  split
  next empty =>
      rw [empty, Except.ok.injEq]
      constructor
      · rintro rfl
        exact ⟨rfl, by decide⟩
      · exact fun same => same.1
  next nonempty =>
      rw [Guard.need_eq_ok, Utf8.parseDecimal_digits digits nonempty, Option.filter_eq_some_iff,
        Option.some.injEq, decide_eq_true_eq]

/-- The checked product and sum are exact. -/
theorem checked_darks {whole frac : Nat} {darks : UInt64} (wholeFits : whole < 2 ^ 64)
    (fracFits : frac < 10 ^ decimals) :
    ((Machine.checkedMul (UInt64.ofNat whole) darksPerNight).bind fun darks =>
      Machine.checkedAdd darks (UInt64.ofNat frac)) = some darks ↔
      darks.toNat = whole * 10 ^ decimals + frac := by
  have unit : darksPerNight.toNat = 10 ^ decimals := by decide
  have wholeWord : (UInt64.ofNat whole).toNat = whole := UInt64.toNat_ofNat_of_lt' wholeFits
  have fracWord : (UInt64.ofNat frac).toNat = frac :=
    UInt64.toNat_ofNat_of_lt' (fracFits.trans (by decide))
  have darksFits := darks.toNat_lt
  rw [Option.bind_eq_some_iff]
  constructor
  · rintro ⟨product, multiplied, added⟩
    rw [Machine.checkedMul_eq_some, wholeWord, unit] at multiplied
    rw [Machine.checkedAdd_eq_some, multiplied, fracWord] at added
    exact added
  · intro total
    have fits : whole * 10 ^ decimals < 2 ^ 64 := by omega
    refine ⟨UInt64.ofNat (whole * 10 ^ decimals), ?_, ?_⟩
    · rw [Machine.checkedMul_eq_some, wholeWord, unit, UInt64.toNat_ofNat_of_lt' fits]
    · rw [Machine.checkedAdd_eq_some, fracWord, UInt64.toNat_ofNat_of_lt' fits, total]

theorem parseNight_eq_ok {darks : UInt64} : parseNight text = .ok darks ↔
    ∃ whole frac, Spells (Utf8.trim text) whole frac ∧ darks.toNat = darksOf whole frac ∧
      0 < darks ∧ darks ≤ maxSupplyDarks := by
  have positive : darks ≠ 0 ↔ 0 < darks := by
    rw [UInt64.lt_iff_toNat_lt, ne_eq, ← UInt64.toNat_inj]
    exact Nat.pos_iff_ne_zero.symm
  simp only [parseNight, Guard.bind_eq_ok, Guard.refuse_eq_ok, Guard.need_eq_ok,
    Except.ok.injEq, exists_const, not_or, not_not, not_lt]
  constructor
  · rintro ⟨_, _, _, _, written, digits, precise, whole, readable, last, checked, nonzero, small,
      rfl⟩
    have spells := spells_iff.mpr ⟨rfl, written, digits, precise⟩
    obtain ⟨rfl, wholeFits⟩ := (readWhole_eq_ok digits.1).mp readable
    obtain ⟨value, fracFits⟩ := parse_padded digits.2 precise
    rw [value, checked_darks wholeFits fracFits] at checked
    exact ⟨_, _, spells, checked, positive.mp nonzero, UInt64.not_lt.mp small⟩
  · rintro ⟨whole, frac, spells, exact, nonzero, small⟩
    obtain ⟨split, written, digits, precise⟩ := spells_iff.mp spells
    obtain ⟨value, fracFits⟩ := parse_padded digits.2 precise
    have wholeFits : Utf8.digitsValue whole < 2 ^ 64 := by
      have fits := darks.toNat_lt
      rw [exact, darksOf] at fits
      have unit : 1 ≤ 10 ^ decimals := by decide
      have scaled := Nat.le_mul_of_pos_right (Utf8.digitsValue whole) unit
      omega
    rw [split]
    refine ⟨?_, spells.unsigned (.inl rfl), spells.unsigned (.inr rfl), point_not_mem digits.2,
      written, digits, precise, _, (readWhole_eq_ok digits.1).mpr ⟨rfl, wholeFits⟩, darks, ?_,
      positive.mpr nonzero, UInt64.not_lt.mpr small, rfl⟩
    · intro empty
      rw [empty, splitPoint_of_free (by simp), Prod.mk.injEq] at split
      exact written ⟨split.1.symm, split.2.symm⟩
    · rw [value, checked_darks wholeFits fracFits]
      exact exact

end Grammar

/-- A printed amount is a text of the grammar. -/
theorem spells_decimalString (darks : UInt64) :
    Spells (Amount.decimalString darks) (Utf8.decimal (darks / darksPerNight).toNat)
      (Utf8.decimalPadded 8 (darks % darksPerNight).toNat) where
  shape := .inr ⟨46, .inl rfl, rfl⟩
  wholeDigits := Utf8.isDigit_decimal _
  fracDigits := Utf8.isDigit_decimalPadded _ _
  written := fun none => Utf8.decimal_ne_nil _ none.1
  precise := by
    rw [UInt64.toNat_mod, Utf8.length_decimalPadded (by decide)]
    · rfl
    · exact Nat.mod_lt _ (by decide)

theorem trim_decimalString (darks : UInt64) :
    Utf8.trim (Amount.decimalString darks) = Amount.decimalString darks := by
  have graphic {byte : UInt8} (digit : Utf8.IsDigit byte) : Utf8.IsGraphic byte := by
    rw [Utf8.IsGraphic, UInt8.le_iff_toNat_le, UInt8.le_iff_toNat_le]
    exact ⟨(by decide : 33 ≤ 48).trans digit.1, digit.2.trans (by decide)⟩
  apply Utf8.trim_of_isGraphic
  intro byte member
  rcases List.mem_append.mp member with whole | rest
  · exact graphic (Utf8.isDigit_decimal _ byte whole)
  · rcases List.mem_cons.mp rest with rfl | frac
    · exact ⟨by decide, by decide⟩
    · exact graphic (Utf8.isDigit_decimalPadded _ _ byte frac)

/-- The parser returns what it was given in print. -/
theorem parseNight_decimalString {darks : UInt64} (positive : 0 < darks)
    (small : darks ≤ maxSupplyDarks) : parseNight (Amount.decimalString darks) = .ok darks := by
  have spells := spells_decimalString darks
  rw [parseNight_eq_ok, trim_decimalString]
  refine ⟨_, _, spells, ?_, positive, small⟩
  have length : (Utf8.decimalPadded 8 (darks % darksPerNight).toNat).length = 8 := by
    apply Utf8.length_decimalPadded (by decide)
    rw [UInt64.toNat_mod]
    exact Nat.mod_lt _ (by decide)
  have full : padded (Utf8.decimalPadded 8 (darks % darksPerNight).toNat) =
      Utf8.decimalPadded 8 (darks % darksPerNight).toNat := by
    rw [padded, length]
    exact List.append_nil _
  rw [darksOf, full, Utf8.digitsValue_decimal, Utf8.digitsValue_decimalPadded, UInt64.toNat_div,
    UInt64.toNat_mod]
  exact (Nat.div_add_mod' _ _).symm

/-- Printing an amount and reading it gives it back.  A text is read exactly when it is in
the grammar and names a positive number of darks within the supply, as that number, and no
text has two readings. -/
theorem amounts_exact :
    (∀ darks : UInt64, 0 < darks → darks ≤ maxSupplyDarks →
      parseNight (Amount.decimalString darks) = .ok darks) ∧
    (∀ (text : Text) (darks : UInt64), parseNight text = .ok darks ↔
      ∃ whole frac, Spells (Utf8.trim text) whole frac ∧
        (darks.toNat : ℚ) = darksPerNight.toNat * nights whole frac ∧
        0 < darks ∧ darks ≤ maxSupplyDarks) ∧
    ∀ text whole frac otherWhole otherFrac : Text, Spells text whole frac →
      Spells text otherWhole otherFrac → whole = otherWhole ∧ frac = otherFrac := by
  refine ⟨fun darks => parseNight_decimalString, fun text darks => ?_,
    fun text whole frac otherWhole otherFrac => Spells.unique⟩
  have unit : (darksPerNight.toNat : ℚ) = 10 ^ decimals := by
    rw [show darksPerNight.toNat = 10 ^ decimals by decide]
    push_cast
    rfl
  have same {whole frac : Text} (spells : Spells (Utf8.trim text) whole frac) :
      darks.toNat = darksOf whole frac ↔
        (darks.toNat : ℚ) = darksPerNight.toNat * nights whole frac := by
    rw [unit, ← darksOf_eq spells.precise, Nat.cast_inj]
  rw [parseNight_eq_ok]
  constructor
  · rintro ⟨whole, frac, spells, exact, bounds⟩
    exact ⟨whole, frac, spells, (same spells).mp exact, bounds⟩
  · rintro ⟨whole, frac, spells, exact, bounds⟩
    exact ⟨whole, frac, spells, (same spells).mpr exact, bounds⟩

/-- A dark prints as it is read, and a half with a comma between spaces is half a coin. -/
theorem amounts_exact_sample :
    parseNight (Amount.decimalString 1) = .ok 1 ∧
      parseNight [32, 44, 53, 32] = .ok 50000000 := by
  refine ⟨amounts_exact.1 1 (by decide) (by decide +kernel), ?_⟩
  rw [amounts_exact.2.1]
  refine ⟨[], [53], ?_, ?_, by decide, by decide +kernel⟩
  · exact ⟨.inr ⟨44, .inr rfl, by decide +kernel⟩, by simp, by simp [Utf8.IsDigit], by simp,
      by decide⟩
  · have five : Utf8.digitsValue [53] = 5 := by decide
    have none : Utf8.digitsValue [] = 0 := by decide
    have unit : darksPerNight.toNat = 100000000 := by decide
    have half : (50000000 : UInt64).toNat = 50000000 := by decide
    rw [nights, five, none, unit, half]
    norm_num

end Nightfall
