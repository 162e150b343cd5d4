import Nightfall.Library.Machine

/-!
# Prefix codes

Encodings such that what follows an encoded value never changes how it is read: fixed
lengths, one field behind another, counted lists, and inverses of such encodings.
-/

namespace PrefixCode

abbrev Text := List UInt8

/-- The encoded value and what follows it are determined. -/
def IsPrefixCode {α : Type*} (write : α → Text) : Prop :=
  ∀ left right after after', write left ++ after = write right ++ after' →
    left = right ∧ after = after'

variable {α β : Type*} {write : α → Text} {other : β → Text}

theorem IsPrefixCode.injective (code : IsPrefixCode write) : Function.Injective write :=
  fun left right same => (code left right [] [] (by simpa using same)).1

/-- Values that all have the same length. -/
theorem isPrefixCode_of_length {size : Nat} (length : ∀ value, (write value).length = size)
    (injective : Function.Injective write) : IsPrefixCode write := by
  intro left right after after' same
  have lengths : (write left).length = (write right).length := by rw [length, length]
  obtain ⟨values, behind⟩ := List.append_inj same lengths
  exact ⟨injective values, behind⟩

theorem IsPrefixCode.comp (code : IsPrefixCode write) {view : β → α}
    (injective : Function.Injective view) : IsPrefixCode fun value => write (view value) := by
  intro left right after after' same
  obtain ⟨views, behind⟩ := code _ _ _ _ same
  exact ⟨injective views, behind⟩

/-- One value behind another. -/
theorem IsPrefixCode.pair (first : IsPrefixCode write) (second : IsPrefixCode other) :
    IsPrefixCode fun value : α × β => write value.1 ++ other value.2 := by
  rintro ⟨left, left'⟩ ⟨right, right'⟩ after after' same
  simp only [List.append_assoc] at same
  obtain ⟨rfl, rest⟩ := first _ _ _ _ same
  obtain ⟨rfl, behind⟩ := second _ _ _ _ rest
  exact ⟨rfl, behind⟩

/-- A tag and the value that may follow it. -/
def option (write : α → Text) : Option α → Text
  | none => [0]
  | some value => 1 :: write value

theorem IsPrefixCode.option (code : IsPrefixCode write) : IsPrefixCode (option write) := by
  intro left right after after' same
  cases left with
  | none =>
      cases right with
      | none => exact ⟨rfl, List.append_cancel_left same⟩
      | some value => simp [PrefixCode.option] at same
  | some value =>
      cases right with
      | none => simp [PrefixCode.option] at same
      | some value' =>
          simp only [PrefixCode.option, List.cons_append, List.cons.injEq, true_and] at same
          obtain ⟨rfl, behind⟩ := code _ _ _ _ same
          exact ⟨rfl, behind⟩

/-! ## Counted lists -/

/-- A number on eight bytes, lowest first.  A number beyond them, which no list in memory
has as its length, is counted out behind eight bytes of their own. -/
def count (number : Nat) : Text :=
  if number < 2 ^ 64 - 1 then
    (List.range 8).map fun index => UInt8.ofNat (number >>> (8 * index))
  else List.replicate 8 255 ++ (List.replicate number 1 ++ [0])

def list (write : α → Text) (values : List α) : Text :=
  count values.length ++ values.flatMap write

theorem low_injective {left right : Nat} (leftSmall : left < 2 ^ 64) (rightSmall : right < 2 ^ 64)
    (same : ((List.range 8).map fun index => UInt8.ofNat (left >>> (8 * index))) =
      (List.range 8).map fun index => UInt8.ofNat (right >>> (8 * index))) : left = right := by
  refine @Machine.eq_of_bytes_eq _ _ 8 leftSmall rightSmall fun index inside => ?_
  exact List.map_inj_left.mp same index (List.mem_range.mpr inside)

theorem replicate_prefix {left right : Nat} {after after' : Text}
    (same : List.replicate left 1 ++ 0 :: after = List.replicate right 1 ++ 0 :: after') :
    left = right ∧ after = after' := by
  induction left generalizing right with
  | zero =>
      cases right with
      | zero => exact ⟨rfl, (List.cons.inj same).2⟩
      | succ right => simp [List.replicate_succ] at same
  | succ left ih =>
      cases right with
      | zero => simp [List.replicate_succ] at same
      | succ right =>
          simp only [List.replicate_succ, List.cons_append, List.cons.injEq, true_and] at same
          obtain ⟨rfl, behind⟩ := ih same
          exact ⟨rfl, behind⟩

theorem count_prefix : IsPrefixCode count := by
  have last : ((List.range 8).map fun index => UInt8.ofNat ((2 ^ 64 - 1) >>> (8 * index))) =
      List.replicate 8 255 := by
    decide
  have mixed {small : Nat} (bound : small < 2 ^ 64 - 1) {after after' : Text} :
      ((List.range 8).map fun index => UInt8.ofNat (small >>> (8 * index))) ++ after ≠
        List.replicate 8 255 ++ after' := by
    intro same
    have bytes := (List.append_inj same (by simp)).1
    rw [← last] at bytes
    have := low_injective (by omega) (by norm_num) bytes
    omega
  intro left right after after' same
  unfold count at same
  split_ifs at same with leftSmall rightSmall rightSmall
  · obtain ⟨bytes, behind⟩ := List.append_inj same (by simp)
    exact ⟨low_injective (by omega) (by omega) bytes, behind⟩
  · rw [List.append_assoc] at same
    exact absurd same (mixed leftSmall)
  · rw [List.append_assoc] at same
    exact absurd same.symm (mixed rightSmall)
  · simp only [List.append_assoc, List.singleton_append] at same
    exact replicate_prefix (List.append_cancel_left same)

theorem IsPrefixCode.list (code : IsPrefixCode write) : IsPrefixCode (list write) := by
  intro left right after after' same
  simp only [PrefixCode.list, List.append_assoc] at same
  obtain ⟨length, elements⟩ := count_prefix _ _ _ _ same
  clear same
  induction left generalizing right with
  | nil =>
      obtain rfl := List.length_eq_zero_iff.mp length.symm
      exact ⟨rfl, elements⟩
  | cons value rest ih =>
      cases right with
      | nil => contradiction
      | cons value' rest' =>
          simp only [List.flatMap_cons, List.append_assoc] at elements
          obtain ⟨rfl, others⟩ := code _ _ _ _ elements
          obtain ⟨rfl, behind⟩ := ih _ (Nat.succ.inj length) others
          exact ⟨rfl, behind⟩

/-! ## Reading -/

open Classical in
/-- The value that an injective encoding writes as the text. -/
noncomputable def inverse (write : α → Text) (text : Text) : Option α :=
  if written : ∃ value, write value = text then some written.choose else none

theorem inverse_write (injective : Function.Injective write) (value : α) :
    inverse write (write value) = some value := by
  have written : ∃ other, write other = write value := ⟨value, rfl⟩
  rw [inverse, dif_pos written]
  exact congrArg some (injective written.choose_spec)

theorem write_of_inverse {text : Text} {value : α} (read : inverse write text = some value) :
    write value = text := by
  unfold inverse at read
  split at read
  · next written =>
      rw [← Option.some.inj read]
      exact written.choose_spec
  · contradiction

end PrefixCode
