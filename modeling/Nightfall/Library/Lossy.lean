import Nightfall.Library.Text

/-!
# Reading bytes as a text

What trimming leaves, how many characters a text has, and the lossy decoder, which puts one
replacement character for each run of bytes that begins a character without finishing it.
-/

namespace Utf8

/-! ## Trimmed texts -/

/-- No white space at either end. -/
structure Trimmed (text : Text) : Prop where
  start : ∀ space ∈ spaces, ¬space <+: text
  stop : ∀ space ∈ spaces, ¬space <:+ text

theorem spaces_ne_nil {space : Text} (member : space ∈ spaces) : space ≠ [] := by
  revert space
  decide

theorem length_trimStartFrom_le (fuel : Nat) (text : Text) :
    (trimStartFrom fuel text).length ≤ text.length := by
  induction fuel generalizing text with
  | zero => exact le_rfl
  | succ fuel ih =>
      rw [trimStartFrom]
      split
      · exact (ih _).trans (by simp)
      · exact le_rfl

theorem length_trimEndFrom_le (fuel : Nat) (text : Text) :
    (trimEndFrom fuel text).length ≤ text.length := by
  induction fuel generalizing text with
  | zero => exact le_rfl
  | succ fuel ih =>
      rw [trimEndFrom]
      split
      · exact (ih _).trans (by simp)
      · exact le_rfl

theorem length_trim_le (text : Text) : (trim text).length ≤ text.length :=
  (length_trimEndFrom_le _ _).trans (length_trimStartFrom_le _ _)

/-- Enough fuel leaves no leading white space. -/
theorem start_trimStartFrom {fuel : Nat} {text : Text} (enough : text.length ≤ fuel) :
    ∀ space ∈ spaces, ¬space <+: trimStartFrom fuel text := by
  induction fuel generalizing text with
  | zero =>
      obtain rfl := List.length_eq_zero_iff.mp (Nat.le_zero.mp enough)
      intro space member leads
      exact spaces_ne_nil member (List.prefix_nil.mp leads)
  | succ fuel ih =>
      rw [trimStartFrom]
      split
      · next space found =>
          have member := List.mem_of_find?_eq_some found
          have positive := List.length_pos_iff.mpr (spaces_ne_nil member)
          exact ih (by rw [List.length_drop]; omega)
      · next missing =>
          intro space member leads
          exact List.find?_eq_none.mp missing space member (List.isPrefixOf_iff_prefix.mpr leads)

/-- Enough fuel leaves no trailing white space. -/
theorem stop_trimEndFrom {fuel : Nat} {text : Text} (enough : text.length ≤ fuel) :
    ∀ space ∈ spaces, ¬space <:+ trimEndFrom fuel text := by
  induction fuel generalizing text with
  | zero =>
      obtain rfl := List.length_eq_zero_iff.mp (Nat.le_zero.mp enough)
      intro space member trails
      exact spaces_ne_nil member (List.suffix_nil.mp trails)
  | succ fuel ih =>
      rw [trimEndFrom]
      split
      · next space found =>
          have member := List.mem_of_find?_eq_some found
          have positive := List.length_pos_iff.mpr (spaces_ne_nil member)
          exact ih (by rw [List.length_take]; omega)
      · next missing =>
          intro space member trails
          exact List.find?_eq_none.mp missing space member (List.isSuffixOf_iff_suffix.mpr trails)

theorem trimEndFrom_isPrefix (fuel : Nat) (text : Text) : trimEndFrom fuel text <+: text := by
  induction fuel generalizing text with
  | zero => exact List.prefix_rfl
  | succ fuel ih =>
      rw [trimEndFrom]
      split
      · exact (ih _).trans (List.take_prefix _ _)
      · exact List.prefix_rfl

theorem trimmed_trim (text : Text) : Trimmed (trim text) where
  start space member leads :=
    start_trimStartFrom le_rfl space member (leads.trans (trimEndFrom_isPrefix _ _))
  stop := stop_trimEndFrom le_rfl

/-- A trimmed text stays as it is. -/
theorem Trimmed.trim_eq {text : Text} (trimmed : Trimmed text) : trim text = text := by
  have noStart : trimStartFrom text.length text = text := by
    cases shape : text.length with
    | zero => rfl
    | succ fuel =>
        rw [trimStartFrom, List.find?_eq_none.mpr]
        intro space member leads
        exact trimmed.start space member (List.isPrefixOf_iff_prefix.mp leads)
  have noEnd : trimEndFrom text.length text = text := by
    cases shape : text.length with
    | zero => rfl
    | succ fuel =>
        rw [trimEndFrom, List.find?_eq_none.mpr]
        intro space member trails
        exact trimmed.stop space member (List.isSuffixOf_iff_suffix.mp trails)
  rw [trim]
  simp only [noStart, noEnd]

@[simp] theorem trim_trim (text : Text) : trim (trim text) = trim text :=
  (trimmed_trim text).trim_eq

/-! ## Runs of the checker -/

/-- Between two characters. -/
def between : Pending := ⟨0, 0x80, 0xBF⟩

/-- Where a text leads from a place inside or between characters. -/
def run (pending : Pending) (text : Text) : Option Pending :=
  text.foldlM Pending.next pending

@[simp] theorem run_nil (pending : Pending) : run pending [] = some pending := rfl

@[simp] theorem run_cons (pending : Pending) (byte : UInt8) (rest : Text) :
    run pending (byte :: rest) = (pending.next byte).bind (run · rest) := rfl

theorem run_append (pending : Pending) (front back : Text) :
    run pending (front ++ back) = (run pending front).bind (run · back) := by
  simp [run, List.foldlM_append]

/-- Places the checker can be at: a following byte is a continuation byte, and between
characters there is one place only. -/
structure Pending.Regular (pending : Pending) : Prop where
  low : 0x80 ≤ pending.low
  high : pending.high ≤ 0xBF
  rest : pending.missing = 0 → pending = between

theorem regular_between : between.Regular := ⟨by decide, by decide, fun _ => rfl⟩

/-- A byte that goes on with a character or begins one. -/
theorem Pending.next_spec {pending later : Pending} {byte : UInt8} (regular : pending.Regular)
    (step : pending.next byte = some later) :
    later.Regular ∧
      (if pending.missing = 0 then
        ¬(0x80 ≤ byte ∧ byte ≤ 0xBF) ∧ later.missing ≤ 3
      else (0x80 ≤ byte ∧ byte ≤ 0xBF) ∧ later.missing + 1 = pending.missing) := by
  obtain ⟨missing, low, high⟩ := pending
  cases missing with
  | succ missing =>
      have ⟨lowBound, highBound, _⟩ := regular
      simp only [Pending.next, Option.ite_none_right_eq_some, Option.some.injEq] at step
      obtain ⟨⟨above, below⟩, rfl⟩ := step
      refine ⟨⟨UInt8.le_refl 0x80, UInt8.le_refl 0xBF, ?_⟩, ?_⟩
      · rintro rfl
        rfl
      · simp only [Nat.succ_ne_zero, if_false, and_true]
        exact ⟨UInt8.le_trans lowBound above, UInt8.le_trans below highBound⟩
  | zero =>
      simp only [if_true]
      simp only [Pending.next] at step
      repeat' split at step
      all_goals cases step
      all_goals
        refine ⟨⟨by decide, by decide, by simp [between]⟩, ?_, by decide⟩
        simp only [UInt8.le_iff_toNat_le, ← UInt8.toNat_inj] at *
        simp only [UInt8.reduceToNat] at *
        omega

theorem regular_of_run {pending last : Pending} (regular : pending.Regular) {text : Text}
    (ran : run pending text = some last) : last.Regular := by
  induction text generalizing pending with
  | nil =>
      obtain rfl := Option.some.inj ran
      exact regular
  | cons byte rest ih =>
      rw [run_cons, Option.bind_eq_some_iff] at ran
      obtain ⟨later, step, ran⟩ := ran
      exact ih (Pending.next_spec regular step).1 ran

theorem isValid_iff {text : Text} : isValid text = true ↔ run between text = some between := by
  constructor
  · intro valid
    rw [isValid] at valid
    split at valid
    · next last ran =>
        have regular : last.Regular := regular_of_run regular_between ran
        rw [run, between, ran, regular.rest (by simpa using valid)]
        rfl
    · exact absurd valid (by decide)
  · intro ran
    rw [run, between] at ran
    rw [isValid, ran]
    rfl

/-- Valid texts put together. -/
theorem isValid_append {front back : Text} (frontValid : isValid front = true) :
    isValid (front ++ back) = isValid back := by
  rw [Bool.eq_iff_iff, isValid_iff, isValid_iff, run_append, isValid_iff.mp frontValid,
    Option.bind_some]

/-- A text that goes on with the first byte of a character was complete before it. -/
theorem isValid_of_append_cons {front back : Text} {byte : UInt8}
    (valid : isValid (front ++ byte :: back) = true) (begins : ¬(0x80 ≤ byte ∧ byte ≤ 0xBF)) :
    isValid front = true := by
  rw [isValid_iff, run_append, Option.bind_eq_some_iff] at valid
  obtain ⟨pending, ran, rest⟩ := valid
  rw [run_cons, Option.bind_eq_some_iff] at rest
  obtain ⟨later, step, _⟩ := rest
  have regular := regular_of_run regular_between ran
  have spec := (Pending.next_spec regular step).2
  split at spec
  · next done => rw [isValid_iff, ran, regular.rest done]
  · exact absurd spec.1 begins

/-- White space is made of whole characters. -/
theorem spaces_spec {space : Text} (member : space ∈ spaces) :
    isValid space = true ∧ space.length ≤ 3 ∧
      ∃ byte rest, space = byte :: rest ∧ ¬(0x80 ≤ byte ∧ byte ≤ 0xBF) := by
  have all : ∀ space ∈ spaces, isValid space = true ∧ space.length ≤ 3 ∧
      ∀ byte ∈ space.head?, ¬(0x80 ≤ byte ∧ byte ≤ 0xBF) := by decide +kernel
  obtain ⟨valid, short, head⟩ := all space member
  obtain ⟨byte, rest, rfl⟩ := List.exists_cons_of_ne_nil (spaces_ne_nil member)
  exact ⟨valid, short, byte, rest, rfl, head byte rfl⟩

theorem isValid_trimStartFrom {fuel : Nat} {text : Text} (valid : isValid text = true) :
    isValid (trimStartFrom fuel text) = true := by
  induction fuel generalizing text with
  | zero => exact valid
  | succ fuel ih =>
      rw [trimStartFrom]
      split
      · next space found =>
          have member := List.mem_of_find?_eq_some found
          have leads := List.find?_some found
          obtain ⟨rest, rfl⟩ := List.isPrefixOf_iff_prefix.mp leads
          refine ih ?_
          rw [List.drop_left]
          rwa [isValid_append (spaces_spec member).1] at valid
      · exact valid

theorem isValid_trimEndFrom {fuel : Nat} {text : Text} (valid : isValid text = true) :
    isValid (trimEndFrom fuel text) = true := by
  induction fuel generalizing text with
  | zero => exact valid
  | succ fuel ih =>
      rw [trimEndFrom]
      split
      · next space found =>
          have member := List.mem_of_find?_eq_some found
          have trails := List.find?_some found
          obtain ⟨front, rfl⟩ := List.isSuffixOf_iff_suffix.mp trails
          obtain ⟨_, _, byte, rest, rfl, begins⟩ := spaces_spec member
          refine ih ?_
          have whole := isValid_of_append_cons valid begins
          simpa using whole
      · exact valid

/-- Trimming cuts between characters. -/
theorem isValid_trim {text : Text} (valid : isValid text = true) : isValid (trim text) = true :=
  isValid_trimEndFrom (isValid_trimStartFrom valid)

/-! ## Counting characters -/

/-- `chars().count()`: the bytes that begin a character. -/
def charCount (text : Text) : Nat :=
  text.countP fun byte => ¬(0x80 ≤ byte ∧ byte ≤ 0xBF)

theorem length_run_le {pending last : Pending} (regular : pending.Regular) {text : Text}
    (ran : run pending text = some last) :
    text.length + last.missing ≤ 4 * charCount text + pending.missing := by
  induction text generalizing pending with
  | nil =>
      obtain rfl := Option.some.inj ran
      simp
  | cons byte rest ih =>
      rw [run_cons, Option.bind_eq_some_iff] at ran
      obtain ⟨later, step, ran⟩ := ran
      obtain ⟨laterRegular, spec⟩ := Pending.next_spec regular step
      have later := ih laterRegular ran
      rw [charCount] at later ⊢
      rw [List.countP_cons, List.length_cons]
      split at spec
      · rw [if_pos (decide_eq_true spec.1)]
        omega
      · rw [if_neg fun begins => absurd spec.1 (of_decide_eq_true begins)]
        omega

/-- A character takes at most four bytes. -/
theorem length_le_four_mul {text : Text} (valid : isValid text = true) :
    text.length ≤ 4 * charCount text := by
  simpa [between] using length_run_le regular_between (isValid_iff.mp valid)

/-! ## The lossy decoder -/

/-- The replacement character. -/
def replacement : Text := [0xEF, 0xBF, 0xBD]

/-- Decode from a place in the text, with the bytes of the unfinished character so far. -/
def lossyFrom : Pending → Text → Text → Text
  | _, held, [] => if held.isEmpty then [] else replacement
  | pending, held, byte :: rest =>
      match pending.next byte with
      | some later =>
          if later.missing = 0 then held ++ byte :: lossyFrom between [] rest
          else lossyFrom later (held ++ [byte]) rest
      | none =>
          -- The byte that does not go on may begin a character of its own.
          (if held.isEmpty then [] else replacement) ++
            match between.next byte with
            | some later =>
                if later.missing = 0 then byte :: lossyFrom between [] rest
                else lossyFrom later [byte] rest
            | none => replacement ++ lossyFrom between [] rest

/-- `String::from_utf8_lossy`. -/
def lossy (text : Text) : Text :=
  lossyFrom between [] text

theorem between_holds_nothing : ([] : Text) = [] ↔ between.missing = 0 := by
  simp [between]

/-- A run of the checker ends in an unfinished character, which the decoder replaces. -/
theorem lossyFrom_of_run {pending last : Pending} {held text : Text} (regular : pending.Regular)
    (isHeld : held = [] ↔ pending.missing = 0) (heldRun : run between held = some pending)
    (ran : run pending text = some last) :
    ∃ whole part, held ++ text = whole ++ part ∧ isValid whole = true ∧
      (part = [] ↔ last.missing = 0) ∧
      lossyFrom pending held text = whole ++ if part.isEmpty then [] else replacement := by
  induction text generalizing pending held with
  | nil =>
      obtain rfl := Option.some.inj ran
      exact ⟨[], held, by simp, rfl, isHeld, by simp [lossyFrom]⟩
  | cons byte rest ih =>
      rw [run_cons, Option.bind_eq_some_iff] at ran
      obtain ⟨later, step, ran⟩ := ran
      have laterRegular := (Pending.next_spec regular step).1
      have laterRun : run between (held ++ [byte]) = some later := by
        rw [run_append, heldRun, Option.bind_some, run_cons, step]
        rfl
      rw [lossyFrom, step]
      dsimp only
      split
      · next done =>
          -- The byte finishes a character.
          obtain rfl := laterRegular.rest done
          obtain ⟨whole, part, shape, valid, ends, decoded⟩ :=
            ih regular_between between_holds_nothing rfl ran
          rw [List.nil_append] at shape
          refine ⟨held ++ byte :: whole, part, by simp [shape], ?_, ends, by simp [decoded]⟩
          rw [List.append_cons, isValid_append (isValid_iff.mpr laterRun)]
          exact valid
      · next unfinished =>
          obtain ⟨whole, part, shape, valid, ends, decoded⟩ :=
            ih laterRegular (by simp [unfinished]) laterRun ran
          exact ⟨whole, part, by simpa using shape, valid, ends, decoded⟩

/-- What the decoder makes of the beginning of a valid text. -/
theorem lossy_of_append_valid {front back : Text} (valid : isValid (front ++ back) = true) :
    ∃ whole part, front = whole ++ part ∧ isValid whole = true ∧
      lossy front = whole ++ if part.isEmpty then [] else replacement := by
  rw [isValid_iff, run_append, Option.bind_eq_some_iff] at valid
  obtain ⟨last, ran, _⟩ := valid
  obtain ⟨whole, part, shape, wholeValid, _, decoded⟩ :=
    lossyFrom_of_run regular_between between_holds_nothing rfl ran
  exact ⟨whole, part, shape, wholeValid, decoded⟩

theorem lossyFrom_append {pending : Pending} {held text : Text} (regular : pending.Regular)
    (isHeld : held = [] ↔ pending.missing = 0) (ran : run pending text = some between)
    (rest : Text) : lossyFrom pending held (text ++ rest) = held ++ text ++ lossy rest := by
  induction text generalizing pending held with
  | nil =>
      obtain rfl := Option.some.inj ran
      obtain rfl := isHeld.mpr rfl
      rfl
  | cons byte text ih =>
      rw [run_cons, Option.bind_eq_some_iff] at ran
      obtain ⟨later, step, ran⟩ := ran
      have laterRegular := (Pending.next_spec regular step).1
      rw [List.cons_append, lossyFrom, step]
      dsimp only
      split
      · next done =>
          obtain rfl := laterRegular.rest done
          rw [ih regular_between between_holds_nothing ran]
          simp
      · next unfinished =>
          rw [ih laterRegular (by simp [unfinished]) ran]
          simp

/-- Whole characters are decoded as they are. -/
theorem lossy_append {whole : Text} (valid : isValid whole = true) (rest : Text) :
    lossy (whole ++ rest) = whole ++ lossy rest := by
  rw [lossy, lossyFrom_append regular_between between_holds_nothing (isValid_iff.mp valid)]
  rfl

theorem lossy_of_isValid {text : Text} (valid : isValid text = true) : lossy text = text := by
  simpa [lossy, lossyFrom] using lossy_append valid []

end Utf8
