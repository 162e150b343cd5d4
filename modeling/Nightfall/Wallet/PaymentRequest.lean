import Nightfall.Library.Percent
import Nightfall.Wallet.Builder

/-!
# Payment requests

What a payee asks for, as a link that `parse` reads and `toUri` writes.  Reading back the
link of a request in bounds gives the request.
-/

namespace Nightfall

variable (P : Primitives)

/-! ## Addresses as texts -/

namespace Domain

def addrChecksum : Bytes := ascii "nightfall:addr:checksum:v2"

end Domain

/-- `strip_prefix`. -/
def stripPrefix (start text : Text) : Option Text :=
  if start.isPrefixOf text then some (text.drop start.length) else none

inductive AddressError where
  | badAddress
  | badAddressChecksum
  deriving DecidableEq

namespace Address

def checksum (payload : Bytes) : Bytes :=
  (hashMulti P Domain.addrChecksum [payload]).toBytes.take 4

def payload (address : Address) : Bytes :=
  address.scanPk.toBytes ++ address.spendPk.toBytes

/-- Wire form: `nf1`, both keys and a checksum in hexadecimal digits. -/
def encode (address : Address) : Text :=
  ascii "nf1" ++ (Hex.encode address.payload ++ Hex.encode (checksum P address.payload))

def decode (text : Text) : Except AddressError Address := do
  let body ← Guard.need (stripPrefix (ascii "nf1") (Utf8.trim text)) .badAddress
  let raw ← Guard.need (Hex.decode body) .badAddress
  Guard.refuse (raw.length ≠ 68) .badAddress
  let payload := raw.take 64
  Guard.refuse (raw.drop 64 ≠ checksum P payload) .badAddressChecksum
  let scanPk ← Guard.need (Bytes32.ofBytes (payload.take 32)) .badAddress
  let spendPk ← Guard.need (Bytes32.ofBytes (payload.drop 32)) .badAddress
  -- Both keys have to be group elements.
  Guard.refuse ((P.decompress scanPk).isNone ∨ (P.decompress spendPk).isNone) .badAddress
  .ok { scanPk := scanPk, spendPk := spendPk }

end Address

/-! ## Requests -/

def NetworkId.asStr : NetworkId → Text
  | .mainnet => ascii "mainnet"
  | .testnet => ascii "testnet"
  | .devnet => ascii "devnet"

def requestScheme : Text := ascii "nightfall"

/-- Longest request accepted. -/
def maxRequestLen : Nat := 2048

def sharePrefix : Text := ascii "https://wallet.nightfallcoin.org/#pay="

def maxShareLen : Nat := sharePrefix.length + maxRequestLen * 3

/-- Longest memo, in characters. -/
def maxMemo : Nat := 64

/-- Longest invoice identifier, in characters. -/
def maxInvoice : Nat := 64

inductive RequestError where
  | tooLong
  | notARequest
  | badAddress
  | missingNetwork
  | unknownNetwork (name : Text)
  | badAmount
  | amountTooLarge
  | memoTooLong
  | invoiceTooLong
  | badExpiry
  | unknownParameter (key : Text)
  | repeatedParameter (key : Text)
  | badEncoding
  deriving DecidableEq

structure PaymentRequest where
  address : Address
  network : NetworkId
  /-- `none` means that the payer chooses. -/
  amountDarks : Option UInt64
  memo : Text
  /-- The payee's own reference. -/
  invoice : Text
  /-- Seconds since 1970, as policy. -/
  expiresUnix : Option UInt64
  deriving DecidableEq

/-- The decimal digits of a 64-bit number and nothing else: one spelling a number. -/
def parseU64 (value : Text) : Option UInt64 :=
  if value.isEmpty || !value.all fun byte => 48 ≤ byte ∧ byte ≤ 57 then none
  else if 1 < value.length ∧ value.head? = some 48 then none
  else (Utf8.parseDecimal (2 ^ 64) value).map UInt64.ofNat

def parseDarks (value : Text) : Except RequestError UInt64 := do
  let darks ← Guard.need (parseU64 value) .badAmount
  Guard.refuse (darks > maxSupplyDarks) .amountTooLarge
  .ok darks

def parseNetwork (value : Text) : Except RequestError NetworkId :=
  if value = ascii "mainnet" then .ok .mainnet
  else if value = ascii "testnet" then .ok .testnet
  else if value = ascii "devnet" then .ok .devnet
  else .error (.unknownNetwork value)

/-- The parameters read so far. -/
structure RequestFields where
  network : Option NetworkId := none
  amountDarks : Option UInt64 := none
  memo : Option Text := none
  invoice : Option Text := none
  expiresUnix : Option UInt64 := none

/-- Take the value of one parameter.  A repeated one is refused. -/
def RequestFields.take (fields : RequestFields) (key value : Text) :
    Except RequestError RequestFields :=
  if key = ascii "network" then do
    Guard.refuse fields.network.isSome (.repeatedParameter key)
    let network ← parseNetwork value
    .ok { fields with network := some network }
  else if key = ascii "amount" then do
    Guard.refuse fields.amountDarks.isSome (.repeatedParameter key)
    let darks ← parseDarks value
    .ok { fields with amountDarks := some darks }
  else if key = ascii "memo" then do
    Guard.refuse fields.memo.isSome (.repeatedParameter key)
    Guard.refuse (maxMemo < Utf8.charCount value) .memoTooLong
    .ok { fields with memo := some value }
  else if key = ascii "id" then do
    Guard.refuse fields.invoice.isSome (.repeatedParameter key)
    Guard.refuse (maxInvoice < Utf8.charCount value) .invoiceTooLong
    .ok { fields with invoice := some value }
  else if key = ascii "expires" then do
    Guard.refuse fields.expiresUnix.isSome (.repeatedParameter key)
    let expires ← Guard.need (parseU64 value) .badExpiry
    .ok { fields with expiresUnix := some expires }
  else .error (.unknownParameter key)

/-- Read one `key=value` pair. -/
def RequestFields.read (fields : RequestFields) (pair : Text) :
    Except RequestError RequestFields := do
  let (key, raw) := (Percent.splitOnce 61 pair).getD (pair, [])
  let value ← Guard.need (Percent.decode raw) .badEncoding
  fields.take key value

namespace PaymentRequest

def eqIgnoreAsciiCase (left right : Text) : Bool :=
  let lower (byte : UInt8) := if 65 ≤ byte ∧ byte ≤ 90 then byte + 32 else byte
  left.map lower = right.map lower

/-- The request inside a share link, or the text itself. -/
def unwrap (text : Text) : Except RequestError Text :=
  match stripPrefix sharePrefix text with
  | none => .ok text
  | some fragment => do
      Guard.refuse (maxShareLen < text.length) .tooLong
      let decoded ← Guard.need (Percent.decode fragment) .badEncoding
      -- One spelling only, so that all readers agree on the payload.
      Guard.refuse (Percent.encode decoded ≠ fragment) .badEncoding
      .ok decoded

/-- Parse a request, refusing anything ambiguous. -/
def parse (text : Text) : Except RequestError PaymentRequest := do
  let text ← unwrap (Utf8.trim text)
  Guard.refuse (maxRequestLen < text.length) .tooLong
  let (_, rest) ← Guard.need
    ((Percent.splitOnce 58 text).filter fun parts => eqIgnoreAsciiCase parts.1 requestScheme)
    .notARequest
  let (addressPart, query) := (Percent.splitOnce 63 rest).getD (rest, [])
  let address ← (Address.decode P (Utf8.trim addressPart)).mapError fun _ => .badAddress
  let fields ← ((query.splitOn 38).filter fun pair => !pair.isEmpty).foldlM
    RequestFields.read {}
  let network ← Guard.need fields.network .missingNetwork
  .ok
    { address := address
      network := network
      amountDarks := fields.amountDarks
      memo := fields.memo.getD []
      invoice := fields.invoice.getD []
      expiresUnix := fields.expiresUnix }

def textParameter (name value : Text) : Text :=
  if value.isEmpty then [] else 38 :: (name ++ 61 :: Percent.encode value)

def numberParameter (name : Text) (value : Option UInt64) : Text :=
  match value with
  | some number => 38 :: (name ++ 61 :: Utf8.decimal number.toNat)
  | none => []

/-- The request as a link. -/
def toUri (request : PaymentRequest) : Text :=
  requestScheme ++ 58 :: (request.address.encode P ++ 63 ::
    (ascii "network" ++ 61 :: request.network.asStr ++
      numberParameter (ascii "amount") request.amountDarks ++
      textParameter (ascii "memo") request.memo ++
      textParameter (ascii "id") request.invoice ++
      numberParameter (ascii "expires") request.expiresUnix))

end PaymentRequest

/-! ## Characters of a link -/

theorem isUnreserved_hex {bytes : Bytes} : ∀ byte ∈ Hex.encode bytes, Percent.isUnreserved byte := by
  intro byte member
  obtain ⟨source, _, member⟩ := List.mem_flatMap.mp member
  have digits : ∀ value < 16, Percent.isUnreserved (Hex.digit value) = true := by decide
  simp only [List.mem_cons, List.not_mem_nil, or_false] at member
  rcases member with rfl | rfl
  · exact digits _ (Nat.div_lt_of_lt_mul source.toNat_lt)
  · exact digits _ (Nat.mod_lt _ (by decide))

theorem isUnreserved_decimal {number : Nat} :
    ∀ byte ∈ Utf8.decimal number, Percent.isUnreserved byte := by
  have digits : ∀ value < 10, Percent.isUnreserved (UInt8.ofNat (48 + value)) = true := by decide
  intro byte member
  rw [Utf8.decimal] at member
  split at member
  · obtain rfl := List.mem_singleton.mp member
    rfl
  · obtain ⟨digit, inside, rfl⟩ := List.mem_map.mp member
    exact digits digit (Nat.digits_lt_base (by norm_num) (List.mem_reverse.mp inside))

variable {P}

theorem Address.isUnreserved_encode {address : Address} :
    ∀ byte ∈ address.encode P, Percent.isUnreserved byte := by
  intro byte member
  rw [Address.encode, List.mem_append, List.mem_append] at member
  rcases member with start | keys | check
  · have letters : ∀ byte ∈ ascii "nf1", Percent.isUnreserved byte = true := by
      simp [ascii, Percent.isUnreserved]
    exact letters byte start
  · exact isUnreserved_hex byte keys
  · exact isUnreserved_hex byte check

theorem isGraphic_of_isUnreserved {byte : UInt8} (safe : Percent.isUnreserved byte = true) :
    Utf8.IsGraphic byte :=
  Percent.IsPlain.isGraphic (.inl safe)

/-! ## Reading back -/

theorem stripPrefix_append (start rest : Text) : stripPrefix start (start ++ rest) = some rest := by
  have leads : start.isPrefixOf (start ++ rest) = true :=
    List.isPrefixOf_iff_prefix.mpr (List.prefix_append start rest)
  simp [stripPrefix, leads]

/-- The wire form of an address with two group elements is read back. -/
theorem Address.decode_encode {address : Address} (scan : (P.decompress address.scanPk).isSome)
    (spend : (P.decompress address.spendPk).isSome) :
    Address.decode P (address.encode P) = .ok address := by
  have graphic : ∀ byte ∈ address.encode P, Utf8.IsGraphic byte := fun byte member =>
    isGraphic_of_isUnreserved (Address.isUnreserved_encode byte member)
  have hex : Hex.encode address.payload ++ Hex.encode (checksum P address.payload) =
      Hex.encode (address.payload ++ checksum P address.payload) :=
    List.flatMap_append.symm
  have payloadLength : address.payload.length = 64 := by simp [payload]
  have checkLength : (checksum P address.payload).length = 4 := by simp [checksum]
  have front : (address.payload ++ checksum P address.payload).take 64 = address.payload :=
    List.take_left' payloadLength
  have back : (address.payload ++ checksum P address.payload).drop 64 =
      checksum P address.payload := List.drop_left' payloadLength
  have scanBytes : address.payload.take 32 = address.scanPk.toBytes :=
    List.take_left' (Bytes32.length_toBytes _)
  have spendBytes : address.payload.drop 32 = address.spendPk.toBytes :=
    List.drop_left' (Bytes32.length_toBytes _)
  have points : ¬((P.decompress address.scanPk).isNone ∨ (P.decompress address.spendPk).isNone) := by
    simp only [Option.isNone_iff_eq_none, not_or]
    exact ⟨Option.ne_none_iff_isSome.mpr scan, Option.ne_none_iff_isSome.mpr spend⟩
  rw [Address.decode, Utf8.trim_of_isGraphic graphic, Address.encode, stripPrefix_append, hex]
  simp only [Guard.bind_eq_ok, Guard.need_eq_ok, Guard.refuse_eq_ok]
  refine ⟨_, rfl, _, Hex.decode_encode _, (), by simp [payloadLength, checkLength], (),
    by simp [front, back], address.scanPk, ?_, address.spendPk, ?_, (), points, rfl⟩
  · rw [front, scanBytes, Bytes32.ofBytes_toBytes]
  · rw [front, spendBytes, Bytes32.ofBytes_toBytes]

theorem parseU64_decimal (number : UInt64) : parseU64 (Utf8.decimal number.toNat) = some number := by
  have read : (Utf8.parseDecimal (2 ^ 64) (Utf8.decimal number.toNat)).map UInt64.ofNat =
      some number := by
    rw [Utf8.parseDecimal_decimal number.toNat_lt]
    simp
  have digits : ∀ byte ∈ Utf8.decimal number.toNat, 48 ≤ byte ∧ byte ≤ 57 := by
    have small : ∀ digit < 10, 48 ≤ UInt8.ofNat (48 + digit) ∧ UInt8.ofNat (48 + digit) ≤ 57 := by
      decide
    intro byte member
    rw [Utf8.decimal] at member
    split at member
    · obtain rfl := List.mem_singleton.mp member
      exact ⟨by decide, by decide⟩
    · obtain ⟨digit, inside, rfl⟩ := List.mem_map.mp member
      exact small digit (Nat.digits_lt_base (by norm_num) (List.mem_reverse.mp inside))
  have nonempty : Utf8.decimal number.toNat ≠ [] := by
    rw [Utf8.decimal]
    split
    · exact List.cons_ne_nil _ _
    · next nonzero => simpa [Nat.digits_ne_nil_iff_ne_zero] using nonzero
  -- More than one digit never begin with a zero.
  have oneSpelling : ¬(1 < (Utf8.decimal number.toNat).length ∧
      (Utf8.decimal number.toNat).head? = some 48) := by
    rintro ⟨many, zero⟩
    rw [Utf8.decimal] at many zero
    split at many
    · simp at many
    · next nonzero =>
        have some_digit : Nat.digits 10 number.toNat ≠ [] := Nat.digits_ne_nil_iff_ne_zero.mpr nonzero
        rw [if_neg nonzero, List.head?_map, List.head?_reverse,
          List.getLast?_eq_getLast_of_ne_nil some_digit, Option.map_some, Option.some.injEq] at zero
        have small : (Nat.digits 10 number.toNat).getLast some_digit < 10 :=
          Nat.digits_lt_base (by norm_num) (List.getLast_mem some_digit)
        have leading := Nat.getLast_digit_ne_zero 10 nonzero
        have code := congrArg UInt8.toNat zero
        rw [UInt8.toNat_ofNat'] at code
        simp only [UInt8.reduceToNat] at code
        omega
  have clean : ¬((Utf8.decimal number.toNat).isEmpty || !(Utf8.decimal number.toNat).all
      fun byte => 48 ≤ byte ∧ byte ≤ 57) = true := by
    simpa [nonempty] using digits
  rw [parseU64, if_neg clean, if_neg oneSpelling, read]

/-! ## Links are read back -/

namespace PaymentRequest

/-- What a request has to satisfy for its link to be read back. -/
structure Admissible (P : Primitives) (request : PaymentRequest) : Prop where
  scanPoint : (P.decompress request.address.scanPk).isSome
  spendPoint : (P.decompress request.address.spendPk).isSome
  amount : ∀ darks ∈ request.amountDarks, darks ≤ maxSupplyDarks
  memoText : Utf8.isValid request.memo = true
  memoShort : Utf8.charCount request.memo ≤ maxMemo
  invoiceText : Utf8.isValid request.invoice = true
  invoiceShort : Utf8.charCount request.invoice ≤ maxInvoice

/-- A parameter of a link. -/
def parameter (name value : Text) : Text :=
  name ++ 61 :: value

def textParameters (name value : Text) : List Text :=
  if value.isEmpty then [] else [parameter name (Percent.encode value)]

def numberParameters (name : Text) (value : Option UInt64) : List Text :=
  value.toList.map fun number => parameter name (Utf8.decimal number.toNat)

/-- The parameters after the network. -/
def laterParameters (request : PaymentRequest) : List Text :=
  numberParameters (ascii "amount") request.amountDarks ++
    textParameters (ascii "memo") request.memo ++
    textParameters (ascii "id") request.invoice ++
    numberParameters (ascii "expires") request.expiresUnix

def query (request : PaymentRequest) : Text :=
  List.intercalate [38] (parameter (ascii "network") request.network.asStr ::
    request.laterParameters)

variable {request : PaymentRequest}

theorem flatMap_textParameters (name value : Text) :
    (textParameters name value).flatMap (38 :: ·) = textParameter name value := by
  rw [textParameters, textParameter]
  split <;> simp [parameter]

theorem flatMap_numberParameters (name : Text) (value : Option UInt64) :
    (numberParameters name value).flatMap (38 :: ·) = numberParameter name value := by
  cases value with
  | none => rfl
  | some number => simp [numberParameters, numberParameter, parameter]

theorem intercalate_cons (separator : UInt8) (first : Text) (rest : List Text) :
    List.intercalate [separator] (first :: rest) = first ++ rest.flatMap (separator :: ·) := by
  induction rest generalizing first with
  | nil => simp [List.intercalate]
  | cons second rest ih =>
      have later := ih second
      rw [List.intercalate, List.intersperse_cons_cons, List.flatten_cons, List.flatten_cons]
      rw [List.intercalate] at later
      rw [later]
      simp

/-- The link is the scheme, the address and the query with their separators. -/
theorem toUri_eq : request.toUri P =
    requestScheme ++ 58 :: (request.address.encode P ++ 63 :: request.query) := by
  rw [toUri, query, intercalate_cons, laterParameters]
  simp only [List.flatMap_append, flatMap_textParameters, flatMap_numberParameters, parameter,
    List.append_assoc, List.cons_append]

/-! ### The parameters one by one -/

/-- A parameter that the link can hold. -/
structure IsParameter (name raw : Text) : Prop where
  name : ∀ byte ∈ name, Percent.isUnreserved byte = true
  raw : ∀ byte ∈ raw, Percent.IsPlain byte

theorem IsParameter.splitOnce {name raw : Text} (shape : IsParameter name raw) :
    Percent.splitOnce 61 (parameter name raw) = some (name, raw) :=
  Percent.splitOnce_append (fun member => absurd (shape.name 61 member) (by decide)) raw

theorem isUnreserved_asStr (network : NetworkId) :
    ∀ byte ∈ network.asStr, Percent.isUnreserved byte = true := by
  cases network <;> simp [NetworkId.asStr, ascii, Percent.isUnreserved]

theorem isParameter_network (network : NetworkId) :
    IsParameter (ascii "network") network.asStr where
  name := by simp [ascii, Percent.isUnreserved]
  raw byte member := .inl (isUnreserved_asStr network byte member)

theorem isParameter_number {name : Text} (safe : ∀ byte ∈ name, Percent.isUnreserved byte = true)
    (number : Nat) : IsParameter name (Utf8.decimal number) where
  name := safe
  raw byte member := .inl (isUnreserved_decimal byte member)

theorem isParameter_text {name : Text} (safe : ∀ byte ∈ name, Percent.isUnreserved byte = true)
    (value : Text) : IsParameter name (Percent.encode value) where
  name := safe
  raw := Percent.isPlain_encode

theorem amount_safe : ∀ byte ∈ ascii "amount", Percent.isUnreserved byte = true := by
  simp [ascii, Percent.isUnreserved]

theorem memo_safe : ∀ byte ∈ ascii "memo", Percent.isUnreserved byte = true := by
  simp [ascii, Percent.isUnreserved]

theorem id_safe : ∀ byte ∈ ascii "id", Percent.isUnreserved byte = true := by
  simp [ascii, Percent.isUnreserved]

theorem expires_safe : ∀ byte ∈ ascii "expires", Percent.isUnreserved byte = true := by
  simp [ascii, Percent.isUnreserved]

theorem parseNetwork_asStr (network : NetworkId) : parseNetwork network.asStr = .ok network := by
  have other : ascii "testnet" ≠ ascii "mainnet" ∧ ascii "devnet" ≠ ascii "mainnet" ∧
      ascii "devnet" ≠ ascii "testnet" := by simp [ascii]
  cases network with
  | mainnet => rfl
  | testnet => simp only [NetworkId.asStr, parseNetwork, if_neg other.1, if_true]
  | devnet => simp only [NetworkId.asStr, parseNetwork, if_neg other.2.1, if_neg other.2.2, if_true]

end PaymentRequest

namespace RequestFields

open PaymentRequest

/-- The names of the parameters are told apart. -/
theorem names_differ :
    ascii "amount" ≠ ascii "network" ∧
      (ascii "memo" ≠ ascii "network" ∧ ascii "memo" ≠ ascii "amount") ∧
      (ascii "id" ≠ ascii "network" ∧ ascii "id" ≠ ascii "amount" ∧ ascii "id" ≠ ascii "memo") ∧
      ascii "expires" ≠ ascii "network" ∧ ascii "expires" ≠ ascii "amount" ∧
        ascii "expires" ≠ ascii "memo" ∧ ascii "expires" ≠ ascii "id" := by
  simp [ascii]

variable {fields : RequestFields} {name raw value : Text}

theorem read_parameter (shape : IsParameter name raw) (decoded : Percent.decode raw = some value) :
    fields.read (parameter name raw) = fields.take name value := by
  rw [read, shape.splitOnce, Option.getD_some]
  simp only [Guard.need, decoded]
  rfl

theorem read_network (unset : fields.network = none) (network : NetworkId) :
    fields.read (parameter (ascii "network") network.asStr) =
      .ok { fields with network := some network } := by
  rw [read_parameter (isParameter_network network)
    (Percent.decode_of_isUnreserved (isUnreserved_asStr network)), take, if_pos rfl]
  simp [Guard.refuse_eq_ok, Guard.bind_eq_ok, unset, parseNetwork_asStr]

theorem read_amount (unset : fields.amountDarks = none) {number : UInt64}
    (possible : number ≤ maxSupplyDarks) :
    fields.read (parameter (ascii "amount") (Utf8.decimal number.toNat)) =
      .ok { fields with amountDarks := some number } := by
  obtain ⟨network, _⟩ := names_differ
  rw [read_parameter (isParameter_number amount_safe _)
    (Percent.decode_of_isUnreserved isUnreserved_decimal), take, if_neg network, if_pos rfl]
  simp [Guard.refuse_eq_ok, Guard.bind_eq_ok, unset, parseDarks, parseU64_decimal, possible]

theorem read_memo (unset : fields.memo = none) (valid : Utf8.isValid value = true)
    (short : Utf8.charCount value ≤ maxMemo) :
    fields.read (parameter (ascii "memo") (Percent.encode value)) =
      .ok { fields with memo := some value } := by
  obtain ⟨_, ⟨network, amount⟩, _⟩ := names_differ
  rw [read_parameter (isParameter_text memo_safe value) (Percent.decode_encode valid), take,
    if_neg network, if_neg amount, if_pos rfl]
  simp [Guard.refuse_eq_ok, Guard.bind_eq_ok, unset, short]

theorem read_invoice (unset : fields.invoice = none) (valid : Utf8.isValid value = true)
    (short : Utf8.charCount value ≤ maxInvoice) :
    fields.read (parameter (ascii "id") (Percent.encode value)) =
      .ok { fields with invoice := some value } := by
  obtain ⟨_, _, ⟨network, amount, memo⟩, _⟩ := names_differ
  rw [read_parameter (isParameter_text id_safe value) (Percent.decode_encode valid), take,
    if_neg network, if_neg amount, if_neg memo, if_pos rfl]
  simp [Guard.refuse_eq_ok, Guard.bind_eq_ok, unset, short]

theorem read_expires (unset : fields.expiresUnix = none) (number : UInt64) :
    fields.read (parameter (ascii "expires") (Utf8.decimal number.toNat)) =
      .ok { fields with expiresUnix := some number } := by
  obtain ⟨_, _, _, network, amount, memo, invoice⟩ := names_differ
  rw [read_parameter (isParameter_number expires_safe _)
    (Percent.decode_of_isUnreserved isUnreserved_decimal), take, if_neg network, if_neg amount,
    if_neg memo, if_neg invoice, if_pos rfl]
  simp [Guard.refuse_eq_ok, Guard.bind_eq_ok, unset, parseU64_decimal]

/-- Reading a number that may be absent. -/
theorem foldlM_numberParameters {start : RequestFields} {number : Option UInt64}
    {set : Option UInt64 → RequestFields} (absent : set none = start)
    (present : ∀ value, number = some value →
      start.read (parameter name (Utf8.decimal value.toNat)) = .ok (set (some value))) :
    (numberParameters name number).foldlM read start = .ok (set number) := by
  cases number with
  | none => exact congrArg Except.ok absent.symm
  | some value =>
      rw [numberParameters, Option.toList_some, List.map_singleton, List.foldlM_cons,
        present value rfl]
      rfl

/-- Reading a text that may be empty. -/
theorem foldlM_textParameters {start : RequestFields} {set : Option Text → RequestFields}
    (absent : set none = start)
    (present : start.read (parameter name (Percent.encode value)) = .ok (set (some value))) :
    (textParameters name value).foldlM read start =
      .ok (set (if value.isEmpty then none else some value)) := by
  rw [textParameters]
  split
  · exact congrArg Except.ok absent.symm
  · rw [List.foldlM_cons, present]
    rfl

end RequestFields

namespace PaymentRequest

variable {request : PaymentRequest}

/-- The fields that the parameters of a request say. -/
def fields (request : PaymentRequest) : RequestFields where
  network := some request.network
  amountDarks := request.amountDarks
  memo := if request.memo.isEmpty then none else some request.memo
  invoice := if request.invoice.isEmpty then none else some request.invoice
  expiresUnix := request.expiresUnix

theorem foldlM_parameters (ok : request.Admissible P) :
    (parameter (ascii "network") request.network.asStr :: request.laterParameters).foldlM
      RequestFields.read {} = .ok request.fields := by
  have network : RequestFields.read {} (parameter (ascii "network") request.network.asStr) =
      .ok { network := some request.network } := RequestFields.read_network rfl _
  have amount := @RequestFields.foldlM_numberParameters (ascii "amount")
    { network := some request.network } request.amountDarks
    (fun number => { network := some request.network, amountDarks := number }) rfl
    fun value here => RequestFields.read_amount rfl (ok.amount value here)
  have memo := @RequestFields.foldlM_textParameters (ascii "memo") request.memo
    { request.fields with memo := none, invoice := none, expiresUnix := none }
    (fun text => { request.fields with memo := text, invoice := none, expiresUnix := none }) rfl
    (RequestFields.read_memo rfl ok.memoText ok.memoShort)
  have invoice := @RequestFields.foldlM_textParameters (ascii "id") request.invoice
    { request.fields with invoice := none, expiresUnix := none }
    (fun text => { request.fields with invoice := text, expiresUnix := none }) rfl
    (RequestFields.read_invoice rfl ok.invoiceText ok.invoiceShort)
  have expires := @RequestFields.foldlM_numberParameters (ascii "expires")
    { request.fields with expiresUnix := none } request.expiresUnix
    (fun number => { request.fields with expiresUnix := number }) rfl
    fun value _ => RequestFields.read_expires rfl value
  rw [List.foldlM_cons, network, laterParameters]
  exact Guard.foldlM_append_of_ok
    (Guard.foldlM_append_of_ok (Guard.foldlM_append_of_ok amount memo) invoice) expires

/-- Every parameter of a request is one that the link can hold. -/
theorem isParameter_of_mem {pair : Text} (member : pair ∈
    parameter (ascii "network") request.network.asStr :: request.laterParameters) :
    ∃ name raw, pair = parameter name raw ∧ IsParameter name raw := by
  simp only [laterParameters, List.mem_cons, List.mem_append, numberParameters, List.mem_map,
    Option.mem_toList, textParameters] at member
  rcases member with rfl | ((amount | memo) | invoice) | expires
  · exact ⟨_, _, rfl, isParameter_network _⟩
  · obtain ⟨number, _, rfl⟩ := amount
    exact ⟨_, _, rfl, isParameter_number amount_safe _⟩
  · split at memo
    · simp at memo
    · exact ⟨_, _, List.mem_singleton.mp memo, isParameter_text memo_safe _⟩
  · split at invoice
    · simp at invoice
    · exact ⟨_, _, List.mem_singleton.mp invoice, isParameter_text id_safe _⟩
  · obtain ⟨number, _, rfl⟩ := expires
    exact ⟨_, _, rfl, isParameter_number expires_safe _⟩

/-- What a parameter is made of. -/
theorem IsParameter.mem {name raw : Text} (shape : IsParameter name raw) {byte : UInt8}
    (member : byte ∈ parameter name raw) : Percent.IsPlain byte ∨ byte = 61 := by
  rw [parameter, List.mem_append, List.mem_cons] at member
  rcases member with member | rfl | member
  · exact .inl (.inl (shape.name byte member))
  · exact .inr rfl
  · exact .inl (shape.raw byte member)

theorem not_isPlain_separator : ¬Percent.IsPlain 38 ∧ ¬Percent.IsPlain 58 ∧ ¬Percent.IsPlain 63 := by
  unfold Percent.IsPlain
  decide

/-- The query falls apart into the parameters again. -/
theorem splitOn_query : (request.query.splitOn 38).filter (fun pair => !pair.isEmpty) =
    parameter (ascii "network") request.network.asStr :: request.laterParameters := by
  rw [query, List.splitOn_intercalate _ ?_ (List.cons_ne_nil _ _), List.filter_eq_self]
  · intro pair member
    obtain ⟨name, raw, rfl, _⟩ := isParameter_of_mem member
    simp [parameter]
  · intro pair member separator
    obtain ⟨name, raw, rfl, shape⟩ := isParameter_of_mem member
    rcases shape.mem separator with plain | same
    · exact not_isPlain_separator.1 plain
    · exact absurd same (by decide)

theorem isGraphic_toUri : ∀ byte ∈ request.toUri P, Utf8.IsGraphic byte := by
  have scheme : ∀ byte ∈ requestScheme, Percent.isUnreserved byte = true := by
    simp [requestScheme, ascii, Percent.isUnreserved]
  intro byte member
  rw [toUri_eq, List.mem_append, List.mem_cons, List.mem_append, List.mem_cons, query,
    intercalate_cons, List.mem_append, List.mem_flatMap] at member
  rcases member with member | rfl | member | rfl | member | ⟨pair, inside, member⟩
  · exact isGraphic_of_isUnreserved (scheme byte member)
  · exact ⟨by decide, by decide⟩
  · exact isGraphic_of_isUnreserved (Address.isUnreserved_encode byte member)
  · exact ⟨by decide, by decide⟩
  · rcases (isParameter_network _).mem member with plain | rfl
    · exact plain.isGraphic
    · exact ⟨by decide, by decide⟩
  · rcases List.mem_cons.mp member with rfl | member
    · exact ⟨by decide, by decide⟩
    · obtain ⟨name, raw, rfl, shape⟩ := isParameter_of_mem (List.mem_cons_of_mem _ inside)
      rcases shape.mem member with plain | rfl
      · exact plain.isGraphic
      · exact ⟨by decide, by decide⟩

theorem length_decimal_le (number : UInt64) : (Utf8.decimal number.toNat).length ≤ 20 := by
  have bounded : number.toNat < 10 ^ 20 := number.toNat_lt.trans (by norm_num)
  rw [Utf8.decimal]
  split
  · decide
  · rw [List.length_map, List.length_reverse]
    exact (Nat.digits_length_le_iff (by norm_num) _).mpr bounded

theorem length_numberParameter_le (name : Text) (value : Option UInt64) :
    (numberParameter name value).length ≤ name.length + 22 := by
  cases value with
  | none => simp [numberParameter]
  | some number =>
      have digits := length_decimal_le number
      simp only [numberParameter, List.length_cons, List.length_append]
      omega

theorem length_textParameter_le (name : Text) {value : Text} (valid : Utf8.isValid value = true)
    (short : Utf8.charCount value ≤ 64) :
    (textParameter name value).length ≤ name.length + 770 := by
  rw [textParameter]
  split
  · simp
  · have encoded := Percent.length_encode_le value
    have bytes := Utf8.length_le_four_mul valid
    simp only [List.length_cons, List.length_append]
    omega

/-- The longest link is shorter than what the parser accepts. -/
theorem length_toUri_le (ok : request.Admissible P) :
    (request.toUri P).length ≤ maxRequestLen := by
  have address : (request.address.encode P).length = 139 := by
    simp [Address.encode, Address.payload, Address.checksum, ascii]
  have network : request.network.asStr.length ≤ 7 := by
    cases request.network <;> simp [NetworkId.asStr, ascii]
  have names : requestScheme.length = 9 ∧ (ascii "network").length = 7 ∧
      (ascii "amount").length = 6 ∧ (ascii "memo").length = 4 ∧ (ascii "id").length = 2 ∧
      (ascii "expires").length = 7 := by simp [requestScheme, ascii]
  have amount := length_numberParameter_le (ascii "amount") request.amountDarks
  have memo := length_textParameter_le (ascii "memo") ok.memoText ok.memoShort
  have invoice := length_textParameter_le (ascii "id") ok.invoiceText ok.invoiceShort
  have expires := length_numberParameter_le (ascii "expires") request.expiresUnix
  simp only [toUri, List.length_append, List.length_cons, maxRequestLen]
  omega

/-- A share link begins with another character. -/
theorem unwrap_toUri : unwrap (request.toUri P) = .ok (request.toUri P) := by
  have heads : sharePrefix = 104 :: sharePrefix.tail ∧
      requestScheme = 110 :: requestScheme.tail := by simp [sharePrefix, requestScheme, ascii]
  have other : sharePrefix.isPrefixOf (request.toUri P) = false := by
    rw [toUri, heads.1, heads.2, List.cons_append, List.isPrefixOf]
    rfl
  rw [unwrap, stripPrefix, other]
  rfl

/-- Reading back the link of a request in bounds gives the request. -/
theorem parse_toUri (ok : request.Admissible P) : parse P (request.toUri P) = .ok request := by
  have trimmed : Utf8.trim (request.toUri P) = request.toUri P :=
    Utf8.trim_of_isGraphic isGraphic_toUri
  have scheme : Percent.splitOnce 58 (request.toUri P) =
      some (requestScheme, request.address.encode P ++ 63 :: request.query) := by
    rw [toUri_eq]
    exact Percent.splitOnce_append (by simp [requestScheme, ascii]) _
  have parts : Percent.splitOnce 63 (request.address.encode P ++ 63 :: request.query) =
      some (request.address.encode P, request.query) := by
    refine Percent.splitOnce_append (fun member => ?_) _
    exact absurd (Address.isUnreserved_encode 63 member) (by decide)
  have addressText : Utf8.trim (request.address.encode P) = request.address.encode P :=
    Utf8.trim_of_isGraphic fun byte member =>
      isGraphic_of_isUnreserved (Address.isUnreserved_encode byte member)
  have sameScheme : eqIgnoreAsciiCase requestScheme requestScheme = true := by simp [eqIgnoreAsciiCase]
  have texts (text : Text) : (if text.isEmpty then none else some text : Option Text).getD [] = text := by
    cases text <;> rfl
  have long : ¬maxRequestLen < (request.toUri P).length := Nat.not_lt.mpr (length_toUri_le ok)
  have read : (Percent.splitOnce 58 (request.toUri P)).filter
      (fun parts => eqIgnoreAsciiCase parts.1 requestScheme) =
      some (requestScheme, request.address.encode P ++ 63 :: request.query) := by
    rw [scheme, Option.filter_some, if_pos sameScheme]
  rw [parse, trimmed, unwrap_toUri]
  simp only [Guard.bind_eq_ok, Guard.need_eq_ok, Guard.refuse_eq_ok]
  refine ⟨_, rfl, (), long, _, read, request.address, ?_, request.fields, ?_, request.network, rfl, ?_⟩
  · rw [parts, Option.getD_some, addressText, Address.decode_encode ok.scanPoint ok.spendPoint]
    rfl
  · rw [parts, Option.getD_some, splitOn_query, foldlM_parameters ok]
  · simp only [fields, texts]

end PaymentRequest

end Nightfall
