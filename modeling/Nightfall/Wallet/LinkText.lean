import Nightfall.Wallet.PaymentRequest

/-!
# The texts of a link

Which components the decoder accepts, and which links are read back as the request that
they were written for.
-/

namespace Percent

open Utf8 (Text)

/-! ## The grammar of a component -/

/-- A hexadecimal digit of either case. -/
def IsHexDigit (byte : UInt8) : Prop :=
  (48 ≤ byte.toNat ∧ byte.toNat ≤ 57) ∨ (97 ≤ byte.toNat ∧ byte.toNat ≤ 102) ∨
    65 ≤ byte.toNat ∧ byte.toNat ≤ 70

/-- What follows every percent sign of the text. -/
def Escapes (follows : Text → Prop) (text : Text) : Prop :=
  ∀ front rest, text = front ++ 37 :: rest → follows rest

/-- The rest begins with two characters of these kinds. -/
def StartsWith (first second : UInt8 → Prop) (rest : Text) : Prop :=
  ∃ high low tail, rest = high :: low :: tail ∧ first high ∧ second low

/-- Every percent sign is followed by two hexadecimal digits. -/
def WellEscaped (text : Text) : Prop :=
  Escapes (StartsWith IsHexDigit IsHexDigit) text

/-- The first digit after a percent sign may be a plus sign. -/
def LooselyEscaped (text : Text) : Prop :=
  Escapes (StartsWith (fun high => IsHexDigit high ∨ high = 43) IsHexDigit) text

/-- A percent sign is followed by a plus sign and a digit. -/
def HasSignedEscape (text : Text) : Prop :=
  ∃ front rest, text = front ++ 37 :: rest ∧ StartsWith (· = 43) IsHexDigit rest

/-- The value of a digit.  A sign counts for nothing. -/
def digit (byte : UInt8) : Nat :=
  (Hex.digitValue byte).getD 0

/-- The bytes that a text stands for. -/
def unescape : Text → Text
  | [] => []
  | byte :: rest =>
      if byte = 37 then
        match rest with
        | high :: low :: rest => UInt8.ofNat (16 * digit high + digit low) :: unescape rest
        | _ => []
      else byte :: unescape rest

theorem isHexDigit_iff {byte : UInt8} : IsHexDigit byte ↔ (Hex.digitValue byte).isSome := by
  simp only [IsHexDigit, Hex.digitValue]
  split
  · simp_all
  · split
    · simp_all
    · split <;> simp_all

theorem digitValue_eq_some {byte : UInt8} (hex : IsHexDigit byte) :
    Hex.digitValue byte = some (digit byte) := by
  obtain ⟨value, known⟩ := Option.isSome_iff_exists.mp (isHexDigit_iff.mp hex)
  rw [digit, known, Option.getD_some]

theorem IsHexDigit.ne {byte other : UInt8} (hex : IsHexDigit byte)
    (outside : ¬IsHexDigit other) : byte ≠ other :=
  fun same => outside (same ▸ hex)

theorem not_isHexDigit_percent : ¬IsHexDigit 37 := by simp [IsHexDigit]

theorem not_isHexDigit_plus : ¬IsHexDigit 43 := by simp [IsHexDigit]

/-! ### One character at a time -/

theorem escapes_nil (follows : Text → Prop) : Escapes follows [] := by
  intro front rest same
  simp at same

theorem escapes_cons {follows : Text → Prop} {byte : UInt8} {rest : Text} :
    Escapes follows (byte :: rest) ↔ (byte = 37 → follows rest) ∧ Escapes follows rest := by
  constructor
  · intro escapes
    refine ⟨fun percent => escapes [] rest (by rw [percent]; rfl), ?_⟩
    intro front tail same
    exact escapes (byte :: front) tail (by rw [same]; rfl)
  · rintro ⟨here, later⟩ front tail same
    cases front with
    | nil =>
        obtain ⟨percent, rfl⟩ := List.cons.inj same
        exact here percent
    | cons first front =>
        obtain ⟨_, same⟩ := List.cons.inj same
        exact later front tail same

theorem escapes_cons_of_ne {follows : Text → Prop} {byte : UInt8} {rest : Text}
    (other : byte ≠ 37) : Escapes follows (byte :: rest) ↔ Escapes follows rest := by
  simp [escapes_cons, other]

theorem pairValue_isSome {high low : UInt8} :
    (pairValue high low).isSome ↔ (IsHexDigit high ∨ high = 43) ∧ IsHexDigit low := by
  rw [isHexDigit_iff, isHexDigit_iff, pairValue]
  split
  · next plus => simp [plus]
  · next other =>
      cases Hex.digitValue high <;> cases Hex.digitValue low <;> simp [other]

theorem pairValue_eq {high low : UInt8} (first : IsHexDigit high ∨ high = 43)
    (second : IsHexDigit low) :
    pairValue high low = some (UInt8.ofNat (16 * digit high + digit low)) := by
  by_cases plus : high = 43
  · have nothing : digit high = 0 := by
      rw [plus]
      rfl
    rw [pairValue, if_pos plus, digitValue_eq_some second, nothing]
    simp
  · have hex := first.resolve_right plus
    rw [pairValue, if_neg plus, digitValue_eq_some hex, digitValue_eq_some second]
    rfl

/-- The decoder accepts the texts whose escapes have digits, or a plus sign and a digit. -/
theorem decodeBytes_isSome (text : Text) : (decodeBytes text).isSome ↔ LooselyEscaped text := by
  fun_induction decodeBytes text with
  | case1 => simp [LooselyEscaped, escapes_nil]
  | case2 high low rest ih =>
      rw [LooselyEscaped, escapes_cons]
      constructor
      · intro some
        obtain ⟨bytes, decoded⟩ := Option.isSome_iff_exists.mp some
        simp only [Option.bind_eq_bind, Option.bind_eq_some_iff] at decoded
        obtain ⟨value, pair, tail, later, _⟩ := decoded
        obtain ⟨first, second⟩ := pairValue_isSome.mp (Option.isSome_of_eq_some pair)
        have highOther : high ≠ 37 := by
          rcases first with hex | rfl
          · exact hex.ne not_isHexDigit_percent
          · decide
        refine ⟨fun _ => ⟨high, low, rest, rfl, first, second⟩, ?_⟩
        rw [escapes_cons_of_ne highOther,
          escapes_cons_of_ne (second.ne not_isHexDigit_percent)]
        exact ih.mp (Option.isSome_of_eq_some later)
      · rintro ⟨here, later⟩
        obtain ⟨_, _, _, same, first, second⟩ := here rfl
        cases same
        have decoded := ih.mpr (escapes_cons.mp (escapes_cons.mp later).2).2
        obtain ⟨bytes, decoded⟩ := Option.isSome_iff_exists.mp decoded
        simp [pairValue_eq first second, decoded]
  | case3 rest short =>
      simp only [Option.isSome_none, Bool.false_eq_true, LooselyEscaped, false_iff]
      intro escapes
      obtain ⟨high, low, tail, same, _⟩ := (escapes_cons.mp escapes).1 rfl
      exact short high low tail same
  | case4 byte rest other ih =>
      rw [Option.isSome_map, ih, LooselyEscaped, LooselyEscaped, escapes_cons_of_ne other]

theorem decodeBytes_eq {text bytes : Text} (decoded : decodeBytes text = some bytes) :
    bytes = unescape text := by
  fun_induction decodeBytes text generalizing bytes with
  | case1 =>
      cases decoded
      rfl
  | case2 high low rest ih =>
      simp only [Option.bind_eq_bind, Option.bind_eq_some_iff, Option.some.injEq] at decoded
      obtain ⟨value, pair, tail, later, rfl⟩ := decoded
      obtain ⟨first, second⟩ := pairValue_isSome.mp (Option.isSome_of_eq_some pair)
      rw [pairValue_eq first second] at pair
      rw [unescape, if_pos rfl, ← ih later, Option.some.inj pair]
  | case3 rest short => cases decoded
  | case4 byte rest other ih =>
      obtain ⟨tail, later, rfl⟩ := Option.map_eq_some_iff.mp decoded
      rw [ih later]
      cases rest with
      | nil => simp [unescape, other]
      | cons second rest =>
          cases rest with
          | nil => simp [unescape, other]
          | cons third rest => rw [unescape.eq_2, if_neg other]

theorem WellEscaped.loosely {text : Text} (escaped : WellEscaped text) : LooselyEscaped text := by
  intro front rest same
  obtain ⟨high, low, tail, here, first, second⟩ := escaped front rest same
  exact ⟨high, low, tail, here, .inl first, second⟩

/-- Without a signed escape the two grammars agree. -/
theorem wellEscaped_iff {text : Text} :
    WellEscaped text ↔ LooselyEscaped text ∧ ¬HasSignedEscape text := by
  constructor
  · intro escaped
    refine ⟨escaped.loosely, ?_⟩
    rintro ⟨front, rest, same, high, low, tail, here, rfl, _⟩
    obtain ⟨first, second, others, there, hex, _⟩ := escaped front rest same
    rw [here] at there
    obtain ⟨rfl, _⟩ := List.cons.inj there
    exact not_isHexDigit_plus hex
  · rintro ⟨escaped, unsigned⟩ front rest same
    obtain ⟨high, low, tail, here, first, second⟩ := escaped front rest same
    refine ⟨high, low, tail, here, first.resolve_right fun plus => ?_, second⟩
    exact unsigned ⟨front, rest, same, high, low, tail, here, plus, second⟩

theorem decode_isSome {text : Text} :
    (decode text).isSome ↔ LooselyEscaped text ∧ Utf8.isValid (unescape text) = true := by
  rw [decode, ← decodeBytes_isSome]
  cases decoded : decodeBytes text with
  | none => simp
  | some bytes => simp [Option.filter_some, decodeBytes_eq decoded]

/-- The decoder accepts exactly its grammar, unless a text has a plus sign and a digit for
the two digits of an escape and nothing else wrong with it. -/
theorem decode_exact_iff {text : Text} (valid : Utf8.isValid text = true) :
    (((decode text).isSome ↔ WellEscaped text ∧ Utf8.isValid (unescape text) = true) ∧
        (∀ decoded, decode text = some decoded → decoded = unescape text) ∧
        decode (encode text) = some text) ↔
      ¬(HasSignedEscape text ∧ LooselyEscaped text ∧ Utf8.isValid (unescape text) = true) := by
  have returned : ∀ decoded, decode text = some decoded → decoded = unescape text := by
    intro decoded accepted
    exact decodeBytes_eq (Option.filter_eq_some_iff.mp accepted).1
  constructor
  · rintro ⟨exact, _, _⟩ ⟨signed, loosely, utf8⟩
    exact (wellEscaped_iff.mp (exact.mp (decode_isSome.mpr ⟨loosely, utf8⟩)).1).2 signed
  · intro harmless
    refine ⟨?_, returned, decode_encode valid⟩
    rw [decode_isSome, wellEscaped_iff]
    constructor
    · rintro ⟨loosely, utf8⟩
      exact ⟨⟨loosely, fun signed => harmless ⟨signed, loosely, utf8⟩⟩, utf8⟩
    · rintro ⟨⟨loosely, _⟩, utf8⟩
      exact ⟨loosely, utf8⟩

end Percent

namespace Percent

/-- The decoder takes a plus sign for a digit. -/
theorem decode_signed :
    ¬(((decode [37, 43, 53]).isSome ↔
        WellEscaped [37, 43, 53] ∧ Utf8.isValid (unescape [37, 43, 53]) = true) ∧
      (∀ decoded, decode [37, 43, 53] = some decoded → decoded = unescape [37, 43, 53]) ∧
      decode (encode [37, 43, 53]) = some [37, 43, 53]) := by
  rintro ⟨exact, _⟩
  have accepted : (decode [37, 43, 53]).isSome := by decide
  refine (wellEscaped_iff.mp (exact.mp accepted).1).2 ⟨[], [43, 53], rfl, 43, 53, [], rfl, rfl, ?_⟩
  exact .inl ⟨by decide, by decide⟩

/-- An escaped letter is accepted, as the grammar says. -/
theorem decode_letter :
    (decode [37, 54, 49]).isSome ↔
      WellEscaped [37, 54, 49] ∧ Utf8.isValid (unescape [37, 54, 49]) = true := by
  have unsigned : ¬HasSignedEscape [37, 54, 49] := by
    rintro ⟨front, rest, same, high, low, tail, rfl, rfl, _⟩
    have sign : (43 : UInt8) ∈ ([37, 54, 49] : Utf8.Text) := by simp [same]
    exact absurd sign (by decide)
  exact ((@decode_exact_iff [37, 54, 49] (by decide)).mpr fun harmful => unsigned harmful.1).1

end Percent

namespace Nightfall

variable {P : Primitives}

/-! ## Links -/

namespace PaymentRequest

/-- A link that a browser opens. -/
def toShareLink (P : Primitives) (request : PaymentRequest) : Text :=
  sharePrefix ++ Percent.encode (request.toUri P)

variable {request : PaymentRequest}

/-- The fragment of a share link is the link. -/
theorem unwrap_toShareLink (ok : request.Admissible P) :
    unwrap (request.toShareLink P) = .ok (request.toUri P) := by
  have short : ¬maxShareLen < (request.toShareLink P).length := by
    have encoded := Percent.length_encode_le (request.toUri P)
    have link := length_toUri_le ok
    rw [toShareLink, maxShareLen, List.length_append]
    omega
  have decoded : Percent.decode (Percent.encode (request.toUri P)) = some (request.toUri P) :=
    Percent.decode_encode (Utf8.isValid_of_isGraphic isGraphic_toUri)
  rw [unwrap, toShareLink, stripPrefix_append]
  simp only [Guard.bind_eq_ok, Guard.refuse_eq_ok, Guard.need_eq_ok]
  exact ⟨(), short, _, decoded, (), not_not.mpr rfl, rfl⟩

theorem isGraphic_toShareLink : ∀ byte ∈ request.toShareLink P, Utf8.IsGraphic byte := by
  have start : ∀ byte ∈ sharePrefix, Utf8.IsGraphic byte := by
    simp [sharePrefix, ascii, Utf8.IsGraphic]
  intro byte member
  rcases List.mem_append.mp member with member | member
  · exact start byte member
  · exact (Percent.isPlain_encode byte member).isGraphic

/-- Parsing continues with what `unwrap` gives. -/
theorem parse_congr {text other : Text} (same : unwrap (Utf8.trim text) = unwrap (Utf8.trim other)) :
    parse P text = parse P other := by
  rw [parse, parse, same]

theorem parse_toShareLink (ok : request.Admissible P) :
    parse P (request.toShareLink P) = .ok request := by
  rw [← parse_toUri ok]
  apply parse_congr
  rw [Utf8.trim_of_isGraphic isGraphic_toShareLink, unwrap_toShareLink ok,
    Utf8.trim_of_isGraphic isGraphic_toUri, unwrap_toUri]

end PaymentRequest

/-! ## Accepted links -/

/-- A decoded address has two group elements for keys. -/
theorem Address.points_of_decode {text : Text} {address : Address}
    (decoded : Address.decode P text = .ok address) :
    (P.decompress address.scanPk).isSome ∧ (P.decompress address.spendPk).isSome := by
  simp only [decode, Guard.bind_eq_ok, Guard.refuse_eq_ok, Guard.need_eq_ok, not_or,
    Option.isNone_iff_eq_none] at decoded
  obtain ⟨_, _, _, _, _, _, _, _, scan, _, spend, _, _, points, same⟩ := decoded
  cases same
  exact ⟨Option.isSome_iff_ne_none.mpr points.1, Option.isSome_iff_ne_none.mpr points.2⟩

namespace RequestFields

/-- What the parser has checked of the parameters read so far. -/
structure Checked (fields : RequestFields) : Prop where
  amount : ∀ darks ∈ fields.amountDarks, darks ≤ maxSupplyDarks
  memo : ∀ text ∈ fields.memo, Utf8.isValid text = true ∧ Utf8.charCount text ≤ maxMemo
  invoice : ∀ text ∈ fields.invoice, Utf8.isValid text = true ∧ Utf8.charCount text ≤ maxInvoice

theorem checked_empty : Checked {} where
  amount := by simp
  memo := by simp
  invoice := by simp

theorem parseDarks_le {value : Text} {darks : UInt64} (parsed : parseDarks value = .ok darks) :
    darks ≤ maxSupplyDarks := by
  simp only [parseDarks, Guard.bind_eq_ok, Guard.refuse_eq_ok, Guard.need_eq_ok,
    Except.ok.injEq] at parsed
  obtain ⟨_, _, _, possible, rfl⟩ := parsed
  exact UInt64.not_lt.mp possible

theorem Checked.take {fields next : RequestFields} (checked : fields.Checked) {key value : Text}
    (utf8 : Utf8.isValid value = true) (taken : fields.take key value = .ok next) :
    next.Checked := by
  rw [RequestFields.take] at taken
  split at taken
  · simp only [Guard.bind_eq_ok, Except.ok.injEq] at taken
    obtain ⟨_, _, _, _, rfl⟩ := taken
    exact { checked with }
  · split at taken
    · simp only [Guard.bind_eq_ok, Except.ok.injEq] at taken
      obtain ⟨_, _, darks, parsed, rfl⟩ := taken
      exact { checked with amount := by simpa using parseDarks_le parsed }
    · split at taken
      · simp only [Guard.bind_eq_ok, Guard.refuse_eq_ok, Except.ok.injEq] at taken
        obtain ⟨_, _, _, short, rfl⟩ := taken
        exact { checked with memo := by simpa using ⟨utf8, Nat.not_lt.mp short⟩ }
      · split at taken
        · simp only [Guard.bind_eq_ok, Guard.refuse_eq_ok, Except.ok.injEq] at taken
          obtain ⟨_, _, _, short, rfl⟩ := taken
          exact { checked with invoice := by simpa using ⟨utf8, Nat.not_lt.mp short⟩ }
        · split at taken
          · simp only [Guard.bind_eq_ok, Except.ok.injEq] at taken
            obtain ⟨_, _, _, _, rfl⟩ := taken
            exact { checked with }
          · cases taken

theorem Checked.read {fields next : RequestFields} (checked : fields.Checked) {pair : Text}
    (read : fields.read pair = .ok next) : next.Checked := by
  simp only [RequestFields.read, Guard.bind_eq_ok, Guard.need_eq_ok] at read
  obtain ⟨value, decoded, taken⟩ := read
  exact checked.take (Option.filter_eq_some_iff.mp decoded).2 taken

end RequestFields

namespace PaymentRequest

/-- The parser checks everything that the link of the request needs. -/
theorem admissible_of_parse {text : Text} {request : PaymentRequest}
    (parsed : parse P text = .ok request) : request.Admissible P := by
  simp only [parse, Guard.bind_eq_ok, Guard.refuse_eq_ok, Guard.need_eq_ok, Guard.mapError_eq_ok,
    Except.ok.injEq] at parsed
  obtain ⟨link, _, _, _, ⟨scheme, rest⟩, _, address, decoded, fields, read, network, _, rfl⟩ := parsed
  have points := Address.points_of_decode decoded
  have checked : fields.Checked :=
    Guard.foldlM_invariant (fun _ _ _ checked read => RequestFields.Checked.read checked read)
      RequestFields.checked_empty read
  have empty : Utf8.isValid [] = true ∧ Utf8.charCount [] ≤ 64 := by decide
  constructor
  · exact points.1
  · exact points.2
  · exact checked.amount
  · cases given : fields.memo with
    | none => exact empty.1
    | some memo => exact (checked.memo memo given).1
  · cases given : fields.memo with
    | none => exact empty.2
    | some memo => exact (checked.memo memo given).2
  · cases given : fields.invoice with
    | none => exact empty.1
    | some invoice => exact (checked.invoice invoice given).1
  · cases given : fields.invoice with
    | none => exact empty.2
    | some invoice => exact (checked.invoice invoice given).2

/-- Both links of a request in bounds are read back as the request, and the link of a
request that a text was read as means the same request. -/
theorem links_exact (P : Primitives) :
    (∀ request : PaymentRequest, request.Admissible P →
      parse P (request.toUri P) = .ok request ∧ parse P (request.toShareLink P) = .ok request) ∧
    ∀ (text : Text) (request : PaymentRequest), parse P text = .ok request →
      parse P (request.toUri P) = .ok request := by
  constructor
  · intro request ok
    exact ⟨parse_toUri ok, parse_toShareLink ok⟩
  · intro text request parsed
    exact parse_toUri (admissible_of_parse parsed)

end PaymentRequest

end Nightfall
