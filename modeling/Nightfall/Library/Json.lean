import Nightfall.Library.Hex
import Nightfall.Library.Text

/-!
# JSON texts

Values and their compact text.  The text of a value followed by anything that does not
continue a number determines the value, so that texts are read back in one way only.
-/

namespace Json

abbrev Text := List UInt8

inductive Value where
  | null
  | bool (value : Bool)
  | number (value : Nat)
  | text (value : Text)
  | array (elements : List Value)
  | object (fields : List (Text × Value))

/-! ## Writing -/

/-- A byte of a string. -/
def escape (byte : UInt8) : Text :=
  if byte = 34 then [92, 34]
  else if byte = 92 then [92, 92]
  else if byte = 8 then [92, 98]
  else if byte = 12 then [92, 102]
  else if byte = 10 then [92, 110]
  else if byte = 13 then [92, 114]
  else if byte = 9 then [92, 116]
  else if byte < 32 then
    [92, 117, 48, 48, Hex.digit (byte.toNat / 16), Hex.digit (byte.toNat % 16)]
  else [byte]

/-- A string between quotes. -/
def quote (text : Text) : Text :=
  34 :: (text.flatMap escape ++ [34])

mutual

def render : Value → Text
  | .null => [110, 117, 108, 108]
  | .bool true => [116, 114, 117, 101]
  | .bool false => [102, 97, 108, 115, 101]
  | .number value => Utf8.decimal value
  | .text value => quote value
  | .array [] => [91, 93]
  | .array (first :: rest) => 91 :: (render first ++ renderElements rest)
  | .object [] => [123, 125]
  | .object ((name, first) :: rest) =>
      123 :: (quote name ++ 58 :: (render first ++ renderFields rest))

/-- The elements behind the first, and the end of the array. -/
def renderElements : List Value → Text
  | [] => [93]
  | value :: rest => 44 :: (render value ++ renderElements rest)

/-- The fields behind the first, and the end of the object. -/
def renderFields : List (Text × Value) → Text
  | [] => [125]
  | (name, value) :: rest => 44 :: (quote name ++ 58 :: (render value ++ renderFields rest))

end

/-! ## Strings -/

/-- Take one byte off an escaped string. -/
def unescape : Text → Option (UInt8 × Text)
  | 92 :: 117 :: 48 :: 48 :: high :: low :: rest => do
      let high ← Hex.digitValue high
      let low ← Hex.digitValue low
      some (UInt8.ofNat (16 * high + low), rest)
  | 92 :: 34 :: rest => some (34, rest)
  | 92 :: 92 :: rest => some (92, rest)
  | 92 :: 98 :: rest => some (8, rest)
  | 92 :: 102 :: rest => some (12, rest)
  | 92 :: 110 :: rest => some (10, rest)
  | 92 :: 114 :: rest => some (13, rest)
  | 92 :: 116 :: rest => some (9, rest)
  | 92 :: _ => none
  | 34 :: _ => none
  | byte :: rest => some (byte, rest)
  | [] => none

theorem unescape_escape (byte : UInt8) (rest : Text) :
    unescape (escape byte ++ rest) = some (byte, rest) := by
  unfold escape
  split_ifs with quote backslash b f n r t control
  · subst quote; rfl
  · subst backslash; rfl
  · subst b; rfl
  · subst f; rfl
  · subst n; rfl
  · subst r; rfl
  · subst t; rfl
  · have high : byte.toNat / 16 < 16 := by
      have := byte.toNat_lt
      omega
    have halves : 16 * (byte.toNat / 16) + byte.toNat % 16 = byte.toNat :=
      Nat.div_add_mod byte.toNat 16
    simp only [List.cons_append, List.nil_append, unescape, Hex.digitValue_digit high,
      Hex.digitValue_digit (Nat.mod_lt byte.toNat (by decide) : byte.toNat % 16 < 16), halves,
      Option.bind_eq_bind, Option.bind_some, UInt8.ofNat_toNat]
  · rw [List.singleton_append]
    unfold unescape
    split <;> simp_all

theorem quote_prefix {left right : Text} {after after' : Text}
    (same : quote left ++ after = quote right ++ after') : left = right ∧ after = after' := by
  have inner : left.flatMap escape ++ 34 :: after = right.flatMap escape ++ 34 :: after' := by
    simpa [quote] using same
  clear same
  induction left generalizing right with
  | nil =>
      cases right with
      | nil => exact ⟨rfl, (List.cons.inj inner).2⟩
      | cons other others =>
          have taken := congrArg unescape inner
          rw [List.flatMap_cons, List.append_assoc, unescape_escape] at taken
          contradiction
  | cons byte bytes ih =>
      cases right with
      | nil =>
          have taken := congrArg unescape inner
          rw [List.flatMap_cons, List.append_assoc, unescape_escape] at taken
          contradiction
      | cons other others =>
          have taken := congrArg unescape inner
          rw [List.flatMap_cons, List.flatMap_cons, List.append_assoc, List.append_assoc,
            unescape_escape, unescape_escape, Option.some.injEq, Prod.mk.injEq] at taken
          obtain ⟨rfl, rest⟩ := taken
          obtain ⟨rfl, behind⟩ := ih rest
          exact ⟨rfl, behind⟩

/-! ## Numbers -/

def IsDigit (byte : UInt8) : Prop :=
  48 ≤ byte.toNat ∧ byte.toNat ≤ 57

instance (byte : UInt8) : Decidable (IsDigit byte) :=
  inferInstanceAs (Decidable (_ ∧ _))

/-- What follows a number does not continue it. -/
def Stops (after : Text) : Prop :=
  ∀ byte ∈ after.head?, ¬IsDigit byte

theorem isDigit_of_mem_decimal {number : Nat} {byte : UInt8}
    (member : byte ∈ Utf8.decimal number) : IsDigit byte := by
  unfold Utf8.decimal at member
  split at member
  · obtain rfl := List.mem_singleton.mp member
    decide
  · obtain ⟨digit, inDigits, rfl⟩ := List.mem_map.mp member
    have small : digit < 10 :=
      Nat.digits_lt_base (by norm_num) (List.mem_reverse.mp inDigits)
    rw [IsDigit, UInt8.toNat_ofNat']
    omega

theorem decimal_ne_nil (number : Nat) : Utf8.decimal number ≠ [] := by
  unfold Utf8.decimal
  split
  · exact List.cons_ne_nil _ _
  · next nonzero => simpa using Nat.digits_ne_nil_iff_ne_zero.mpr nonzero

theorem decimal_prefix {left right : Nat} {after after' : Text} (stops : Stops after)
    (stops' : Stops after') (same : Utf8.decimal left ++ after = Utf8.decimal right ++ after') :
    left = right ∧ after = after' := by
  have digits (number : Nat) {after : Text} (stops : Stops after) :
      (Utf8.decimal number ++ after).takeWhile (fun byte => decide (IsDigit byte)) =
        Utf8.decimal number := by
    rw [List.takeWhile_append_of_pos fun byte member => by
      simpa using isDigit_of_mem_decimal member]
    cases after with
    | nil => simp
    | cons byte rest => simp [stops byte rfl]
  have decimals : Utf8.decimal left = Utf8.decimal right := by
    rw [← digits left stops, same, digits right stops']
  refine ⟨?_, ?_⟩
  · have parsed := @Utf8.parseDecimal_decimal (left + right + 1) left (by omega)
    rw [decimals, Utf8.parseDecimal_decimal (by omega)] at parsed
    exact (Option.some.inj parsed).symm
  · rw [decimals] at same
    exact List.append_cancel_left same

/-! ## Reading in one way only -/

/-- The kind of a value, which the first byte of its text tells. -/
def Value.kind : Value → Nat
  | .null => 110
  | .bool true => 116
  | .bool false => 102
  | .number _ => 48
  | .text _ => 34
  | .array _ => 91
  | .object _ => 123

def kindOf (byte : UInt8) : Nat :=
  if IsDigit byte then 48 else byte.toNat

theorem kindOf_head (value : Value) (after : Text) :
    ((render value ++ after).head?.map kindOf) = some value.kind := by
  cases value with
  | null => rfl
  | bool value => cases value <;> rfl
  | number value =>
      obtain ⟨byte, rest, shape⟩ := List.exists_cons_of_ne_nil (decimal_ne_nil value)
      have digit : IsDigit byte := isDigit_of_mem_decimal (shape ▸ List.mem_cons_self)
      simp [render, shape, kindOf, digit, Value.kind]
  | text value => rfl
  | array elements => cases elements <;> rfl
  | object fields =>
      cases fields with
      | nil => rfl
      | cons field rest => rfl

/-- Only a number can be continued. -/
def Value.Ends : Value → Text → Prop
  | .number _, after => Stops after
  | _, _ => True

theorem Stops.ends {after : Text} (stops : Stops after) (value : Value) : value.Ends after := by
  cases value <;> first | exact stops | trivial

theorem stops_renderElements (elements : List Value) (after : Text) :
    Stops (renderElements elements ++ after) := by
  cases elements <;> (intro byte head; obtain rfl := Option.some.inj head; decide)

theorem stops_renderFields (fields : List (Text × Value)) (after : Text) :
    Stops (renderFields fields ++ after) := by
  rcases fields with _ | ⟨⟨name, value⟩, rest⟩ <;>
    (intro byte head; obtain rfl := Option.some.inj head; decide)

theorem kind_eq {left right : Value} {after after' : Text}
    (same : render left ++ after = render right ++ after') : left.kind = right.kind := by
  have heads := congrArg (fun text => text.head?.map kindOf) same
  simp only [kindOf_head, Option.some.injEq] at heads
  exact heads

/-- No text begins with the end of an array. -/
theorem render_ne_bracket (value : Value) (after rest : Text) :
    render value ++ after ≠ 93 :: rest := by
  intro same
  have head := kindOf_head value after
  rw [same, List.head?_cons, Option.map_some, Option.some.injEq] at head
  have bracket : kindOf 93 = 93 := by decide
  rw [bracket] at head
  cases value with
  | bool value => cases value <;> exact absurd head (by simp [Value.kind])
  | _ => exact absurd head (by simp [Value.kind])

mutual

/-- A text that nothing continues determines the value. -/
theorem render_front : (left right : Value) → {after after' : Text} → left.Ends after →
    right.Ends after' → render left ++ after = render right ++ after' →
    left = right ∧ after = after'
  | .null, right, after, after', _, _, same => by
      have kinds := kind_eq same
      cases right with
      | null => exact ⟨rfl, List.append_cancel_left same⟩
      | bool value => cases value <;> simp [Value.kind] at kinds
      | _ => simp [Value.kind] at kinds
  | .bool value, right, after, after', _, _, same => by
      have kinds := kind_eq same
      cases right with
      | bool other =>
          have equal : value = other := by
            cases value <;> cases other <;> simp [Value.kind] at kinds ⊢
          subst equal
          exact ⟨rfl, List.append_cancel_left same⟩
      | _ => cases value <;> simp [Value.kind] at kinds
  | .number value, right, after, after', ends, ends', same => by
      have kinds := kind_eq same
      cases right with
      | number other =>
          obtain ⟨rfl, behind⟩ := decimal_prefix ends ends' same
          exact ⟨rfl, behind⟩
      | bool other => cases other <;> simp [Value.kind] at kinds
      | _ => simp [Value.kind] at kinds
  | .text value, right, after, after', _, _, same => by
      have kinds := kind_eq same
      cases right with
      | text other =>
          obtain ⟨rfl, behind⟩ := quote_prefix same
          exact ⟨rfl, behind⟩
      | bool other => cases other <;> simp [Value.kind] at kinds
      | _ => simp [Value.kind] at kinds
  | .array [], right, after, after', _, _, same => by
      have kinds := kind_eq same
      cases right with
      | array elements =>
          cases elements with
          | nil => exact ⟨rfl, List.append_cancel_left same⟩
          | cons other others =>
              simp only [render, List.cons_append, List.nil_append, List.append_assoc,
                List.cons.injEq, true_and] at same
              exact absurd same.symm (render_ne_bracket _ _ _)
      | bool other => cases other <;> simp [Value.kind] at kinds
      | _ => simp [Value.kind] at kinds
  | .array (first :: rest), right, after, after', _, _, same => by
      have kinds := kind_eq same
      cases right with
      | array elements =>
          cases elements with
          | nil =>
              simp only [render, List.cons_append, List.nil_append, List.append_assoc,
                List.cons.injEq, true_and] at same
              exact absurd same (render_ne_bracket _ _ _)
          | cons other others =>
              simp only [render, List.cons_append, List.append_assoc, List.cons.injEq,
                true_and] at same
              obtain ⟨rfl, inside⟩ := render_front first other
                ((stops_renderElements rest after).ends first)
                ((stops_renderElements others after').ends other) same
              obtain ⟨rfl, behind⟩ := renderElements_prefix rest others inside
              exact ⟨rfl, behind⟩
      | bool other => cases other <;> simp [Value.kind] at kinds
      | _ => simp [Value.kind] at kinds
  | .object [], right, after, after', _, _, same => by
      have kinds := kind_eq same
      cases right with
      | object fields =>
          rcases fields with _ | ⟨⟨name, other⟩, others⟩
          · exact ⟨rfl, List.append_cancel_left same⟩
          · simp [render, quote] at same
      | bool other => cases other <;> simp [Value.kind] at kinds
      | _ => simp [Value.kind] at kinds
  | .object ((name, first) :: rest), right, after, after', _, _, same => by
      have kinds := kind_eq same
      cases right with
      | object fields =>
          rcases fields with _ | ⟨⟨name', other⟩, others⟩
          · simp [render, quote] at same
          · simp only [render, List.cons_append, List.append_assoc, List.cons.injEq,
              true_and] at same
            obtain ⟨rfl, colon⟩ := quote_prefix same
            obtain ⟨rfl, inside⟩ := render_front first other
              ((stops_renderFields rest after).ends first)
              ((stops_renderFields others after').ends other) (List.cons.inj colon).2
            obtain ⟨rfl, behind⟩ := renderFields_prefix rest others inside
            exact ⟨rfl, behind⟩
      | bool other => cases other <;> simp [Value.kind] at kinds
      | _ => simp [Value.kind] at kinds

theorem renderElements_prefix : (left right : List Value) → {after after' : Text} →
    renderElements left ++ after = renderElements right ++ after' →
    left = right ∧ after = after'
  | [], [], after, after', same => ⟨rfl, List.append_cancel_left same⟩
  | [], other :: others, after, after', same => by simp [renderElements] at same
  | value :: rest, [], after, after', same => by simp [renderElements] at same
  | value :: rest, other :: others, after, after', same => by
      simp only [renderElements, List.cons_append, List.append_assoc, List.cons.injEq,
        true_and] at same
      obtain ⟨rfl, inside⟩ := render_front value other
        ((stops_renderElements rest after).ends value)
        ((stops_renderElements others after').ends other) same
      obtain ⟨rfl, behind⟩ := renderElements_prefix rest others inside
      exact ⟨rfl, behind⟩

theorem renderFields_prefix : (left right : List (Text × Value)) → {after after' : Text} →
    renderFields left ++ after = renderFields right ++ after' →
    left = right ∧ after = after'
  | [], [], after, after', same => ⟨rfl, List.append_cancel_left same⟩
  | [], (name, other) :: others, after, after', same => by simp [renderFields] at same
  | (name, value) :: rest, [], after, after', same => by simp [renderFields] at same
  | (name, value) :: rest, (name', other) :: others, after, after', same => by
      simp only [renderFields, List.cons_append, List.append_assoc, List.cons.injEq,
        true_and] at same
      obtain ⟨rfl, colon⟩ := quote_prefix same
      obtain ⟨rfl, inside⟩ := render_front value other
        ((stops_renderFields rest after).ends value)
        ((stops_renderFields others after').ends other) (List.cons.inj colon).2
      obtain ⟨rfl, behind⟩ := renderFields_prefix rest others inside
      exact ⟨rfl, behind⟩

end

theorem render_injective : Function.Injective render := by
  intro left right same
  have stops : Stops [] := nofun
  refine (render_front left right (stops.ends left) (stops.ends right) ?_).1
  simpa using same

/-- No text of an object begins another one. -/
theorem render_object_of_prefix {left right : List (Text × Value)}
    (inside : render (.object left) <+: render (.object right)) : left = right := by
  obtain ⟨rest, whole⟩ := inside
  rw [← List.append_nil (render (.object right))] at whole
  exact Value.object.inj (render_front (.object left) (.object right) trivial trivial whole).1

/-! ## Printable texts -/

/-- No byte of a text is a control character. -/
def IsPlain (text : Text) : Prop :=
  ∀ byte ∈ text, 32 ≤ byte.toNat

@[simp] theorem isPlain_nil : IsPlain [] := nofun

@[simp] theorem isPlain_cons {byte : UInt8} {rest : Text} :
    IsPlain (byte :: rest) ↔ 32 ≤ byte.toNat ∧ IsPlain rest := by
  simp [IsPlain]

@[simp] theorem isPlain_append {front back : Text} :
    IsPlain (front ++ back) ↔ IsPlain front ∧ IsPlain back := by
  simp only [IsPlain, List.mem_append]
  exact ⟨fun all => ⟨fun byte here => all byte (.inl here), fun byte here => all byte (.inr here)⟩,
    fun both byte here => here.elim (both.1 byte) (both.2 byte)⟩

theorem isPlain_escape (byte : UInt8) : IsPlain (escape byte) := by
  have digits : ∀ value < 16, 32 ≤ (Hex.digit value).toNat := by decide
  have bounded := byte.toNat_lt
  unfold escape
  split_ifs with quote backslash b f n r t control
  · simp
  · simp
  · simp
  · simp
  · simp
  · simp
  · simp
  · simp [digits (byte.toNat / 16) (by omega), digits (byte.toNat % 16) (by omega)]
  · simpa [UInt8.lt_iff_toNat_lt] using control

theorem isPlain_quote (text : Text) : IsPlain (quote text) := by
  have inner : IsPlain (text.flatMap escape) := by
    intro byte member
    obtain ⟨source, -, inside⟩ := List.mem_flatMap.mp member
    exact isPlain_escape source byte inside
  simp [quote, inner]

theorem isPlain_decimal (number : Nat) : IsPlain (Utf8.decimal number) := by
  intro byte member
  have digit := isDigit_of_mem_decimal member
  exact le_trans (by decide) digit.1

mutual

theorem isPlain_render : (value : Value) → IsPlain (render value)
  | .null => by simp [render]
  | .bool true => by simp [render]
  | .bool false => by simp [render]
  | .number value => by simpa [render] using isPlain_decimal value
  | .text value => by simpa [render] using isPlain_quote value
  | .array [] => by simp [render]
  | .array (first :: rest) => by
      simp [render, isPlain_render first, isPlain_renderElements rest]
  | .object [] => by simp [render]
  | .object ((name, first) :: rest) => by
      simp [render, isPlain_quote name, isPlain_render first, isPlain_renderFields rest]

theorem isPlain_renderElements : (elements : List Value) → IsPlain (renderElements elements)
  | [] => by simp [renderElements]
  | value :: rest => by
      simp [renderElements, isPlain_render value, isPlain_renderElements rest]

theorem isPlain_renderFields : (fields : List (Text × Value)) → IsPlain (renderFields fields)
  | [] => by simp [renderFields]
  | (name, value) :: rest => by
      simp [renderFields, isPlain_quote name, isPlain_render value, isPlain_renderFields rest]

end

theorem render_object_cons (fields : List (Text × Value)) :
    ∃ rest, render (.object fields) = 123 :: rest ∧ rest ≠ [] := by
  rcases fields with _ | ⟨⟨name, value⟩, rest⟩
  · exact ⟨_, rfl, by simp⟩
  · exact ⟨_, rfl, by simp [quote]⟩

/-! ## Lengths -/

section Lengths

variable {elements : List Value} {fields : List (Text × Value)} {name : Text} {value : Value}

theorem length_lt_renderElements (elements : List Value) :
    elements.length < (renderElements elements).length := by
  induction elements with
  | nil => exact Nat.zero_lt_one
  | cons first rest ih =>
      rw [renderElements, List.length_cons, List.length_cons, List.length_append]
      omega

theorem length_le_render_array (elements : List Value) :
    elements.length ≤ (render (.array elements)).length := by
  cases elements with
  | nil => exact Nat.zero_le _
  | cons first rest =>
      have others := length_lt_renderElements rest
      rw [render, List.length_cons, List.length_cons, List.length_append]
      omega

theorem length_render_le_renderElements (member : value ∈ elements) :
    (render value).length ≤ (renderElements elements).length := by
  induction member with
  | head rest =>
      rw [renderElements, List.length_cons, List.length_append]
      omega
  | tail first member ih =>
      rw [renderElements, List.length_cons, List.length_append]
      omega

/-- An element is not longer than its array. -/
theorem length_render_le_array (member : value ∈ elements) :
    (render value).length ≤ (render (.array elements)).length := by
  cases elements with
  | nil => cases member
  | cons first rest =>
      have inside := length_render_le_renderElements member
      rw [renderElements, List.length_cons] at inside
      rwa [render, List.length_cons]

theorem length_render_le_renderFields (member : (name, value) ∈ fields) :
    (render value).length ≤ (renderFields fields).length := by
  induction member with
  | head rest =>
      rw [renderFields, List.length_cons, List.length_append, List.length_cons, List.length_append]
      omega
  | tail first member ih =>
      rw [renderFields, List.length_cons, List.length_append, List.length_cons, List.length_append]
      omega

/-- A field is not longer than its object. -/
theorem length_render_le_object (member : (name, value) ∈ fields) :
    (render value).length ≤ (render (.object fields)).length := by
  cases fields with
  | nil => cases member
  | cons first rest =>
      have inside := length_render_le_renderFields member
      rw [renderFields, List.length_cons] at inside
      rwa [render, List.length_cons]

/-- The number of digits of a decimal number. -/
def digitCount (number : Nat) : Nat :=
  max (Nat.digits 10 number).length 1

/-- The size of an array or of an object whose members have these sizes: a comma between any
two of them, and a bracket at each end. -/
def listSize (sizes : List Nat) : Nat :=
  sizes.sum + max sizes.length 1 + 1

theorem length_decimal (number : Nat) : (Utf8.decimal number).length = digitCount number := by
  unfold Utf8.decimal digitCount
  split
  next zero => simp [zero]
  next positive =>
      have nonempty : 1 ≤ (Nat.digits 10 number).length :=
        List.length_pos_iff.mpr (Nat.digits_ne_nil_iff_ne_zero.mpr positive)
      rw [List.length_map, List.length_reverse, max_eq_left nonempty]

theorem length_renderElements (elements : List Value) :
    (renderElements elements).length =
      (elements.map fun value => (render value).length).sum + elements.length + 1 := by
  induction elements with
  | nil => rfl
  | cons first rest ih =>
      rw [renderElements, List.length_cons, List.length_append, ih]
      simp only [List.map_cons, List.sum_cons, List.length_cons]
      omega

theorem length_render_array (elements : List Value) :
    (render (.array elements)).length =
      listSize (elements.map fun value => (render value).length) := by
  cases elements with
  | nil => rfl
  | cons first rest =>
      rw [render, List.length_cons, List.length_append, length_renderElements]
      simp only [listSize, List.map_cons, List.sum_cons, List.length_cons, List.length_map]
      omega

theorem length_renderFields (fields : List (Text × Value)) :
    (renderFields fields).length =
      (fields.map fun field => (quote field.1).length + 1 + (render field.2).length).sum +
        fields.length + 1 := by
  induction fields with
  | nil => rfl
  | cons first rest ih =>
      rw [renderFields, List.length_cons, List.length_append, List.length_cons,
        List.length_append, ih]
      simp only [List.map_cons, List.sum_cons, List.length_cons]
      omega

theorem length_render_object (fields : List (Text × Value)) :
    (render (.object fields)).length =
      listSize (fields.map fun field => (quote field.1).length + 1 + (render field.2).length) := by
  cases fields with
  | nil => rfl
  | cons first rest =>
      rw [render, List.length_cons, List.length_append, List.length_cons, List.length_append,
        length_renderFields]
      simp only [listSize, List.map_cons, List.sum_cons, List.length_cons, List.length_map]
      omega

/-- The members of an object, names and values apart. -/
theorem length_render_fields (fields : List (Text × Value)) :
    (render (.object fields)).length =
      (fields.map fun field => (quote field.1).length + 1).sum + max fields.length 1 + 1 +
        (fields.map fun field => (render field.2).length).sum := by
  rw [length_render_object, listSize, List.sum_map_add, List.length_map]
  omega

end Lengths

end Json
