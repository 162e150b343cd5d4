import Nightfall.Library.Text

/-!
# Values of digit texts

Positional values of texts of decimal digits: how they add up over a concatenation, what
padding does to them, and that the decimal parser computes them.
-/

namespace Utf8

/-- One of the ten digits. -/
def IsDigit (byte : UInt8) : Prop :=
  48 ≤ byte.toNat ∧ byte.toNat ≤ 57

instance (byte : UInt8) : Decidable (IsDigit byte) :=
  inferInstanceAs (Decidable (_ ∧ _))

/-- The number that a text of digits writes. -/
def digitsValue (digits : Text) : Nat :=
  digits.foldl (fun total byte => 10 * total + (byte.toNat - 48)) 0

variable {digits front back : Text}

/-- The parser's fold is the positional value. -/
theorem foldlM_pushDigit_eq (each : ∀ byte ∈ digits, IsDigit byte) (total : Nat) :
    digits.foldlM pushDigit total =
      some (digits.foldl (fun total byte => 10 * total + (byte.toNat - 48)) total) := by
  induction digits generalizing total with
  | nil => rfl
  | cons byte rest ih =>
      have here : pushDigit total byte = some (10 * total + (byte.toNat - 48)) :=
        if_pos (each byte List.mem_cons_self)
      rw [List.foldlM_cons, here]
      exact ih (fun other member => each other (List.mem_cons_of_mem _ member)) _

theorem parseDecimal_digits (each : ∀ byte ∈ digits, IsDigit byte) (nonempty : digits ≠ [])
    (bound : Nat) :
    parseDecimal bound digits = (some (digitsValue digits)).filter (· < bound) := by
  have unsigned : digits.head? ≠ some 43 := by
    intro sign
    have digit := each 43 (List.mem_of_mem_head? sign)
    exact absurd digit (by decide)
  rw [parseDecimal, if_neg unsigned]
  simp only [if_neg nonempty, foldlM_pushDigit_eq each 0]
  rfl

/-- What comes in front is shifted by the length of the rest. -/
theorem foldl_digits_eq (total : Nat) (digits : Text) :
    digits.foldl (fun total byte => 10 * total + (byte.toNat - 48)) total =
      total * 10 ^ digits.length + digitsValue digits := by
  induction digits generalizing total with
  | nil => simp [digitsValue]
  | cons byte rest ih =>
      rw [digitsValue, List.foldl_cons, List.foldl_cons, ih, ih, List.length_cons, pow_succ]
      ring

theorem digitsValue_append (front back : Text) :
    digitsValue (front ++ back) =
      digitsValue front * 10 ^ back.length + digitsValue back := by
  rw [digitsValue, List.foldl_append, foldl_digits_eq]
  rfl

theorem digitsValue_replicate_zero (count : Nat) :
    digitsValue (List.replicate count 48) = 0 := by
  induction count with
  | zero => rfl
  | succ count ih =>
      rw [List.replicate_succ, digitsValue, List.foldl_cons, foldl_digits_eq, ih]
      simp

theorem digitsValue_lt (each : ∀ byte ∈ digits, IsDigit byte) :
    digitsValue digits < 10 ^ digits.length := by
  induction digits with
  | nil => exact Nat.one_pos
  | cons byte rest ih =>
      have here := each byte List.mem_cons_self
      have later := ih fun other member => each other (List.mem_cons_of_mem _ member)
      have digit : byte.toNat - 48 ≤ 9 := Nat.sub_le_of_le_add here.2
      rw [digitsValue, List.foldl_cons, foldl_digits_eq, List.length_cons]
      calc (10 * 0 + (byte.toNat - 48)) * 10 ^ rest.length + digitsValue rest
          < (byte.toNat - 48) * 10 ^ rest.length + 10 ^ rest.length := by
            rw [Nat.mul_zero, Nat.zero_add]
            exact Nat.add_lt_add_left later _
        _ = (byte.toNat - 48 + 1) * 10 ^ rest.length := by ring
        _ ≤ 10 * 10 ^ rest.length := Nat.mul_le_mul_right _ (Nat.succ_le_succ digit)
        _ = 10 ^ (rest.length + 1) := by ring

theorem isDigit_of_foldlM {total value : Nat} (read : digits.foldlM pushDigit total = some value) :
    ∀ byte ∈ digits, IsDigit byte := by
  induction digits generalizing total with
  | nil => simp
  | cons byte rest ih =>
      rw [List.foldlM_cons, Option.bind_eq_bind, Option.bind_eq_some_iff] at read
      obtain ⟨next, pushed, later⟩ := read
      have here : IsDigit byte := by
        unfold pushDigit at pushed
        split at pushed
        next digit => exact digit
        next => cases pushed
      exact List.forall_mem_cons.mpr ⟨here, ih later⟩

/-- A decimal number has nothing but digits behind its sign. -/
theorem isDigit_of_parseDecimal {bound number : Nat} {text : Text}
    (read : parseDecimal bound text = some number) : ∀ byte ∈ text, IsDigit byte ∨ byte = 43 := by
  have each (digits : Text)
      (read : (if digits = [] then none else (digits.foldlM pushDigit 0).filter (· < bound)) =
        some number) : ∀ byte ∈ digits, IsDigit byte := by
    split at read
    · cases read
    · exact isDigit_of_foldlM (Option.filter_eq_some_iff.mp read).1
  unfold parseDecimal at read
  by_cases signed : text.head? = some 43
  · rw [if_pos signed] at read
    obtain ⟨rest, rfl⟩ := List.head?_eq_some_iff.mp signed
    intro byte member
    rcases List.mem_cons.mp member with rfl | later
    · exact .inr rfl
    · exact .inl (each rest read byte later)
  · rw [if_neg signed] at read
    exact fun byte member => .inl (each text read byte member)

theorem parseDecimal_lt {bound number : Nat} {text : Text}
    (read : parseDecimal bound text = some number) : number < bound := by
  have small (digits : Text)
      (read : (if digits = [] then none else (digits.foldlM pushDigit 0).filter (· < bound)) =
        some number) : number < bound := by
    split at read
    · cases read
    · simpa using (Option.filter_eq_some_iff.mp read).2
  exact small _ read

/-! ## Written numbers -/

theorem isDigit_decimal (number : Nat) : ∀ byte ∈ decimal number, IsDigit byte := by
  intro byte member
  unfold decimal at member
  split at member
  · rw [List.mem_singleton.mp member]
    decide
  · obtain ⟨digit, inside, rfl⟩ := List.mem_map.mp member
    have small : digit < 10 := Nat.digits_lt_base (by norm_num) (List.mem_reverse.mp inside)
    rw [IsDigit, UInt8.toNat_ofNat']
    omega

theorem decimal_ne_nil (number : Nat) : decimal number ≠ [] := by
  unfold decimal
  split
  · simp
  · next nonzero => simpa using Nat.digits_ne_nil_iff_ne_zero.mpr nonzero

theorem digitsValue_decimal (number : Nat) : digitsValue (decimal number) = number := by
  have read := parseDecimal_decimal (Nat.lt_succ_self number)
  rw [parseDecimal_digits (isDigit_decimal number) (decimal_ne_nil number),
    Option.filter_eq_some_iff] at read
  exact Option.some.inj read.1

theorem length_decimal_le {number count : Nat} (positive : 0 < count)
    (small : number < 10 ^ count) : (decimal number).length ≤ count := by
  unfold decimal
  split
  · exact positive
  · rw [List.length_map, List.length_reverse]
    exact (Nat.digits_length_le_iff (by norm_num) number).mpr small

/-- `{:0width}`: a number with zeros in front. -/
def decimalPadded (width number : Nat) : Text :=
  List.replicate (width - (decimal number).length) 48 ++ decimal number

theorem isDigit_decimalPadded (width number : Nat) :
    ∀ byte ∈ decimalPadded width number, IsDigit byte := by
  intro byte member
  rcases List.mem_append.mp member with zero | digit
  · rw [List.eq_of_mem_replicate zero]
    decide
  · exact isDigit_decimal number byte digit

theorem digitsValue_decimalPadded (width number : Nat) :
    digitsValue (decimalPadded width number) = number := by
  rw [decimalPadded, digitsValue_append, digitsValue_replicate_zero, digitsValue_decimal]
  simp

theorem length_decimalPadded {width number : Nat} (positive : 0 < width)
    (small : number < 10 ^ width) : (decimalPadded width number).length = width := by
  have short := length_decimal_le positive small
  rw [decimalPadded, List.length_append, List.length_replicate]
  omega

end Utf8
