import Mathlib

/-!
# Files of records

Two layouts of a list of values in one file: records behind a length prefix of four bytes,
and one text a line.  Reading gives back what was written, and a file that was cut off
anywhere gives a part of it or nothing.
-/

namespace Records

variable {α : Type*}

abbrev Text := List UInt8

/-! ## Length prefixes -/

/-- The four bytes of a length, lowest first. -/
def word (value : Nat) : Text :=
  (List.range 4).map fun index => UInt8.ofNat (value >>> (8 * index))

/-- The number that four bytes stand for. -/
def value (bytes : Text) : Nat :=
  bytes.foldr (fun byte total => byte.toNat + 256 * total) 0

@[simp] theorem length_word (value : Nat) : (word value).length = 4 := by
  simp [word]

theorem value_word {number : Nat} (small : number < 2 ^ 32) : value (word number) = number := by
  simp only [word, value, List.range_succ, List.range_zero, List.nil_append,
    List.map_cons, List.map_nil, List.cons_append, List.foldr_cons, List.foldr_nil,
    UInt8.toNat_ofNat', Nat.shiftRight_eq_div_pow]
  omega

/-- A record behind its length. -/
def frame (payload : Text) : Text :=
  word payload.length ++ payload

@[simp] theorem length_frame (payload : Text) : (frame payload).length = 4 + payload.length := by
  simp [frame]

/-- Read framed records to the end of the file.  The bound is the length of the file. -/
def readFramed (limit : Nat) (decode : Text → Option α) : Nat → Text → Option (List α)
  | _, [] => some []
  | 0, _ :: _ => none
  | fuel + 1, byte :: rest =>
      let bytes := byte :: rest
      let length := value (bytes.take 4)
      if bytes.length < 4 then none
      else if length = 0 ∨ length > limit then none
      else if (bytes.drop 4).length < length then none
      else do
        let first ← decode ((bytes.drop 4).take length)
        let others ← readFramed limit decode fuel ((bytes.drop 4).drop length)
        some (first :: others)

/-- The encoding fits one record and is decoded again. -/
structure Framed (limit : Nat) (encode : α → Text) (decode : Text → Option α) (element : α) :
    Prop where
  pos : 0 < (encode element).length
  le : (encode element).length ≤ limit
  decoded : decode (encode element) = some element

section Framed

variable {limit fuel : Nat} {encode : α → Text} {decode : Text → Option α} {element : α}
  {elements : List α}

/-- Every record takes at least one byte. -/
theorem length_le_of_readFramed {text : Text} {found : List α}
    (read : readFramed limit decode fuel text = some found) : found.length ≤ text.length := by
  induction fuel generalizing text found with
  | zero =>
      cases text with
      | nil => simp_all [readFramed]
      | cons byte rest => contradiction
  | succ fuel ih =>
      cases text with
      | nil => simp_all [readFramed]
      | cons byte rest =>
          simp only [readFramed] at read
          split at read
          · contradiction
          · split at read
            · contradiction
            · split at read
              · contradiction
              · simp only [Option.bind_eq_bind, Option.bind_eq_some_iff, Option.some.injEq] at read
                obtain ⟨first, -, others, readOthers, rfl⟩ := read
                have shorter := ih readOthers
                simp only [List.length_drop, List.length_cons] at shorter ⊢
                omega

theorem readFramed_cons (small : limit < 2 ^ 32) (framed : Framed limit encode decode element)
    (rest : Text) : readFramed limit decode (fuel + 1) (frame (encode element) ++ rest) =
      (readFramed limit decode fuel rest).map (element :: ·) := by
  have length := length_frame (encode element)
  have pos := framed.pos
  have le := framed.le
  cases shape : frame (encode element) ++ rest with
  | nil =>
      have := congrArg List.length shape
      simp at this
  | cons byte tail =>
      have front : (byte :: tail).take 4 = word (encode element).length := by
        rw [← shape, frame, List.append_assoc]
        exact List.take_left' (length_word _)
      have back : (byte :: tail).drop 4 = encode element ++ rest := by
        rw [← shape, frame, List.append_assoc]
        exact List.drop_left' (length_word _)
      have long : ¬(byte :: tail).length < 4 := by
        rw [← shape, List.length_append, length]
        omega
      simp only [readFramed, front, back, value_word (le.trans_lt small), if_neg long]
      rw [if_neg (by omega), if_neg (by simp), List.take_left', List.drop_left', framed.decoded]
      · cases readFramed limit decode fuel rest <;> rfl
      · rfl
      · rfl

/-- Reading gives back the elements that were written. -/
theorem readFramed_frames (small : limit < 2 ^ 32)
    (framed : ∀ element ∈ elements, Framed limit encode decode element)
    (enough : (elements.flatMap fun element => frame (encode element)).length ≤ fuel) :
    readFramed limit decode fuel (elements.flatMap fun element => frame (encode element)) =
      some elements := by
  induction elements generalizing fuel with
  | nil => cases fuel <;> rfl
  | cons element rest ih =>
      rw [List.flatMap_cons, List.length_append, length_frame] at enough
      obtain ⟨fuel, rfl⟩ := Nat.exists_eq_succ_of_ne_zero (show fuel ≠ 0 by omega)
      rw [List.flatMap_cons, Nat.succ_eq_add_one,
        readFramed_cons small (framed element List.mem_cons_self)]
      rw [ih (fun other member => framed other (List.mem_cons_of_mem _ member)) (by omega)]
      rfl

/-- A record that was cut off is not read. -/
theorem readFramed_cut (small : limit < 2 ^ 32) (framed : Framed limit encode decode element)
    {part : Text} (inside : part <+: frame (encode element)) (nonempty : part ≠ [])
    (cut : part.length < (frame (encode element)).length) :
    readFramed limit decode fuel part = none := by
  cases part with
  | nil => contradiction
  | cons byte tail =>
      cases fuel with
      | zero => rfl
      | succ fuel =>
          rw [length_frame] at cut
          simp only [readFramed]
          by_cases short : (byte :: tail).length < 4
          · exact if_pos short
          · obtain ⟨missing, whole⟩ := inside
            have front : (byte :: tail).take 4 = word (encode element).length := by
              have taken := congrArg (List.take 4) whole
              rw [List.take_append_of_le_length (by omega), frame,
                List.take_left' (length_word _)] at taken
              exact taken
            have missingBody : ((byte :: tail).drop 4).length < (encode element).length := by
              rw [List.length_drop]
              omega
            rw [if_neg short, front, value_word (framed.le.trans_lt small), if_pos missingBody,
              ite_self]

/-- What is read from the front part of a file is a front part of its elements, and the part
ends behind their records. -/
theorem readFramed_front (small : limit < 2 ^ 32)
    (framed : ∀ element ∈ elements, Framed limit encode decode element) {part : Text}
    (inside : part <+: elements.flatMap fun element => frame (encode element)) {found : List α}
    (read : readFramed limit decode fuel part = some found) :
    found <+: elements ∧ part = found.flatMap fun element => frame (encode element) := by
  induction elements generalizing part found fuel with
  | nil =>
      obtain rfl := List.prefix_nil.mp inside
      cases fuel <;> (obtain rfl := Option.some.inj read; exact ⟨List.nil_prefix, rfl⟩)
  | cons element rest ih =>
      have here := framed element List.mem_cons_self
      rw [List.flatMap_cons] at inside
      by_cases empty : part = []
      · subst empty
        cases fuel <;> (obtain rfl := Option.some.inj read; exact ⟨List.nil_prefix, rfl⟩)
      · by_cases cut : part.length < (frame (encode element)).length
        · have front := List.prefix_of_prefix_length_le inside (List.prefix_append _ _) cut.le
          rw [readFramed_cut small here front empty cut] at read
          contradiction
        · obtain ⟨later, rfl⟩ := List.prefix_of_prefix_length_le (List.prefix_append _ _) inside
            (Nat.not_lt.mp cut)
          have inRest := (List.prefix_append_right_inj _).mp inside
          cases fuel with
          | zero =>
              cases shape : frame (encode element) ++ later with
              | nil => exact absurd shape empty
              | cons byte tail =>
                  rw [shape] at read
                  contradiction
          | succ fuel =>
              rw [readFramed_cons small here, Option.map_eq_some_iff] at read
              obtain ⟨others, readRest, rfl⟩ := read
              obtain ⟨part, whole⟩ := ih (fun other member =>
                framed other (List.mem_cons_of_mem _ member)) inRest readRest
              rw [List.flatMap_cons, ← whole]
              exact ⟨(List.prefix_cons_inj element).mpr part, rfl⟩

theorem readFramed_prefix (small : limit < 2 ^ 32)
    (framed : ∀ element ∈ elements, Framed limit encode decode element) {part : Text}
    (inside : part <+: elements.flatMap fun element => frame (encode element)) {found : List α}
    (read : readFramed limit decode fuel part = some found) : found <+: elements :=
  (readFramed_front small framed inside read).1

end Framed

/-! ## Lines -/

/-- A line without the carriage return in front of its end. -/
def chomp (line : Text) : Text :=
  if line.getLast? = some 13 then line.dropLast else line

/-- The lines of a text.  `current` is what was read of the line so far. -/
def linesFrom : Text → Text → List Text
  | [], [] => []
  | current, [] => [current]
  | current, byte :: rest =>
      if byte = 10 then chomp current :: linesFrom [] rest else linesFrom (current ++ [byte]) rest

def lines (text : Text) : List Text :=
  linesFrom [] text

/-- Decode every line that is not skipped. -/
def readLines (skip : Text → Bool) (decode : Text → Option α) (text : Text) : Option (List α) :=
  ((lines text).filter fun line => !skip line).mapM decode

/-- The encoding is one line that is decoded again, and no part of it is. -/
structure IsLine (skip : Text → Bool) (encode : α → Text) (decode : Text → Option α)
    (element : α) : Prop where
  newline : 10 ∉ encode element
  carriageReturn : 13 ∉ encode element
  kept : ∀ part, part <+: encode element → part ≠ [] → skip part = false
  nonempty : encode element ≠ []
  decoded : decode (encode element) = some element
  torn : ∀ part, part <+: encode element → part ≠ encode element → decode part = none

section Lines

variable {skip : Text → Bool} {encode : α → Text} {decode : Text → Option α} {element : α}
  {elements : List α} {line rest : Text}

theorem linesFrom_line (newline : 10 ∉ line) (current : Text) :
    linesFrom current (line ++ 10 :: rest) = chomp (current ++ line) :: linesFrom [] rest := by
  induction line generalizing current with
  | nil => cases current <;> simp [linesFrom]
  | cons byte tail ih =>
      simp only [List.mem_cons, not_or] at newline
      rw [List.cons_append]
      have step : linesFrom current (byte :: (tail ++ 10 :: rest)) =
          linesFrom (current ++ [byte]) (tail ++ 10 :: rest) := by
        cases current <;> simp [linesFrom, Ne.symm newline.1]
      rw [step, ih newline.2, List.append_assoc, List.singleton_append]

/-- The last line may lack its end. -/
theorem linesFrom_last (newline : 10 ∉ line) (current : Text) (nonempty : current ++ line ≠ []) :
    linesFrom current line = [current ++ line] := by
  induction line generalizing current with
  | nil =>
      cases current with
      | nil => simp at nonempty
      | cons byte tail => simp [linesFrom]
  | cons byte tail ih =>
      simp only [List.mem_cons, not_or] at newline
      have step : linesFrom current (byte :: tail) = linesFrom (current ++ [byte]) tail := by
        cases current <;> simp [linesFrom, Ne.symm newline.1]
      rw [step, ih newline.2 _ (by simp), List.append_assoc, List.singleton_append]

theorem length_linesFrom_le (current text : Text) :
    (linesFrom current text).length ≤ current.length + text.length := by
  fun_induction linesFrom current text with
  | case1 => simp
  | case2 current nonempty =>
      have := List.length_pos_iff.mpr nonempty
      simp only [List.length_cons, List.length_nil]
      omega
  | case3 current rest ih =>
      simp only [List.length_cons, List.length_nil] at ih ⊢
      omega
  | case4 current byte rest other ih =>
      simp only [List.length_append, List.length_cons, List.length_nil] at ih ⊢
      omega

/-- Every line takes at least one byte. -/
theorem length_le_of_readLines {text : Text} {found : List α}
    (read : readLines skip decode text = some found) : found.length ≤ text.length := by
  have mapped : ∀ {lines : List Text} {found : List α},
      lines.mapM decode = some found → found.length = lines.length := by
    intro lines
    induction lines with
    | nil =>
        intro found read
        obtain rfl := Option.some.inj read
        rfl
    | cons line rest ih =>
        intro found read
        simp only [List.mapM_cons, Option.bind_eq_bind, Option.bind_eq_some_iff, Option.pure_def,
          Option.some.injEq] at read
        obtain ⟨first, -, others, readOthers, rfl⟩ := read
        rw [List.length_cons, List.length_cons, ih readOthers]
  calc found.length = ((lines text).filter fun line => !skip line).length := mapped read
    _ ≤ (lines text).length := List.length_filter_le _ _
    _ ≤ text.length := by simpa [lines] using length_linesFrom_le [] text

theorem chomp_of_notMem (carriageReturn : 13 ∉ line) : chomp line = line := by
  unfold chomp
  rw [if_neg]
  intro last
  exact carriageReturn (List.mem_of_getLast? last)

theorem readLines_cons (isLine : IsLine skip encode decode element) (rest : Text) :
    readLines skip decode (encode element ++ 10 :: rest) =
      (readLines skip decode rest).map (element :: ·) := by
  have kept := isLine.kept _ (List.prefix_refl _) isLine.nonempty
  unfold readLines lines
  rw [linesFrom_line isLine.newline, List.nil_append, chomp_of_notMem isLine.carriageReturn,
    List.filter_cons_of_pos (by simp [kept]), List.mapM_cons, isLine.decoded]
  cases List.mapM decode ((linesFrom [] rest).filter fun line => !skip line) <;> rfl

theorem readLines_lines (isLine : ∀ element ∈ elements, IsLine skip encode decode element) :
    readLines skip decode (elements.flatMap fun element => encode element ++ [10]) =
      some elements := by
  induction elements with
  | nil => rfl
  | cons element rest ih =>
      rw [List.flatMap_cons, List.append_assoc, List.singleton_append,
        readLines_cons (isLine element List.mem_cons_self),
        ih fun other member => isLine other (List.mem_cons_of_mem _ member)]
      rfl

/-- The front part of one line is that whole line or cannot be read. -/
theorem readLines_part (isLine : IsLine skip encode decode element) {part : Text}
    (inside : part <+: encode element) (nonempty : part ≠ []) :
    readLines skip decode part = if part = encode element then some [element] else none := by
  have newline : 10 ∉ part := fun member => isLine.newline (inside.subset member)
  unfold readLines lines
  rw [linesFrom_last newline _ (by simpa using nonempty), List.nil_append,
    List.filter_cons_of_pos (by simp [isLine.kept part inside nonempty]), List.filter_nil,
    List.mapM_cons]
  split
  · next whole =>
      rw [whole, isLine.decoded]
      rfl
  · next cut =>
      rw [isLine.torn part inside cut]
      rfl

/-- What is read from the front part of a file is a front part of its elements. -/
theorem readLines_prefix (isLine : ∀ element ∈ elements, IsLine skip encode decode element)
    {part : Text} (inside : part <+: elements.flatMap fun element => encode element ++ [10])
    {found : List α} (read : readLines skip decode part = some found) : found <+: elements := by
  induction elements generalizing part found with
  | nil =>
      obtain rfl := List.prefix_nil.mp inside
      obtain rfl := Option.some.inj read
      exact List.nil_prefix
  | cons element rest ih =>
      have here := isLine element List.mem_cons_self
      rw [List.flatMap_cons] at inside
      by_cases empty : part = []
      · subst empty
        obtain rfl := Option.some.inj read
        exact List.nil_prefix
      · by_cases cut : part.length ≤ (encode element).length
        · have front : part <+: encode element :=
            List.prefix_of_prefix_length_le inside
              ((List.prefix_append _ [10]).trans (List.prefix_append _ _)) cut
          rw [readLines_part here front empty] at read
          split at read
          · obtain rfl := Option.some.inj read
            exact (List.prefix_cons_inj element).mpr List.nil_prefix
          · contradiction
        · obtain ⟨later, rfl⟩ := List.prefix_of_prefix_length_le (List.prefix_append _ _) inside
            (show (encode element ++ [10]).length ≤ part.length by simp; omega)
          have inRest := (List.prefix_append_right_inj _).mp inside
          rw [List.append_assoc, List.singleton_append, readLines_cons here,
            Option.map_eq_some_iff] at read
          obtain ⟨others, readRest, rfl⟩ := read
          have part := ih (fun other member => isLine other (List.mem_cons_of_mem _ member))
            inRest readRest
          exact (List.prefix_cons_inj element).mpr part

end Lines

end Records
