import Nightfall.Library.OnceMap
import Nightfall.Wallet.LinkText
import Nightfall.Wallet.Sample

/-!
# Air packages

The two texts that cross the gap to a wallet that is never on a network: what to pay, and
the finished transaction.  Both are lists of fields in which every field is there once.
-/

namespace Nightfall

open Std (ExtTreeMap)

/-- The scheme of every package. -/
def airScheme : Text := ascii "nightfall-air"

/-- Format version. -/
def airVersion : Nat := 1

/-- Longest payload, in bytes. -/
def maxPayload : Nat := 32000

/-- Bytes of payload per frame. -/
def maxFramePayload : Nat := 500

/-- Most frames of a transfer. -/
def maxFrames : Nat := 64

/-- Longest frame that a reader looks at. -/
def maxFrameLen : Nat := 2 * maxFramePayload + 128

inductive AirError where
  | notAnAirPackage
  | unknownVersion (version : Nat)
  | unknownKind (kind : Text)
  | missingField (field : Text)
  | unknownField (field : Text)
  | repeatedField (field : Text)
  | badAddress
  | badNumber (field : Text)
  | amountTooLarge
  | wrongNetwork (package wallet : NetworkId)
  | expired (expiredAt now : UInt64)
  | payloadTooLarge (length : Nat)
  | payloadEmpty
  | badFrame
  | frameFromAnotherTransfer
  | tooManyFrames (count : Nat)
  | incompleteTransfer (held total : Nat)
  | digestMismatch
  deriving DecidableEq

namespace Air

open PaymentRequest (parameter)

/-- A package of a kind with its fields. -/
def packageText (kind : Text) (fields : List (Text × Text)) : Text :=
  airScheme ++ 58 :: (kind ++ 58 :: (Utf8.decimal airVersion ++
    fields.flatMap fun entry => 124 :: parameter entry.1 entry.2))

/-- Read one `name=value` field.  A repeated one is refused. -/
def readField (fields : ExtTreeMap Text Text) (pair : Text) :
    Except AirError (ExtTreeMap Text Text) := do
  let entry ← Guard.need (Percent.splitOnce 61 pair) .notAnAirPackage
  OnceMap.insertOnce .repeatedField fields entry

/-- The fields of a package of a kind. -/
def splitPackage (text kind : Text) : Except AirError (ExtTreeMap Text Text) := do
  let rest ← Guard.need (stripPrefix (airScheme ++ [58]) (Utf8.trim text)) .notAnAirPackage
  let (foundKind, rest) ← Guard.need (Percent.splitOnce 58 rest) .notAnAirPackage
  Guard.refuse (foundKind ≠ kind) (.unknownKind foundKind)
  let (version, rest) ← Guard.need (Percent.splitOnce 124 rest) .notAnAirPackage
  let version ← Guard.need (Utf8.parseDecimal (2 ^ 32) version) .notAnAirPackage
  Guard.refuse (version ≠ airVersion) (.unknownVersion version)
  ((rest.splitOn 124).filter fun pair => !pair.isEmpty).foldlM readField ∅

def take (fields : ExtTreeMap Text Text) (key : Text) : Except AirError Text :=
  Guard.need fields[key]? (.missingField key)

/-- Refuse the first field that is not known, in the order of the names. -/
def refuseUnknown (fields : ExtTreeMap Text Text) (known : List Text) : Except AirError Unit :=
  match fields.keys.find? fun key => !known.contains key with
  | some key => .error (.unknownField key)
  | none => .ok ()

def networkFrom (value : Text) : Except AirError NetworkId :=
  if value = ascii "mainnet" then .ok .mainnet
  else if value = ascii "testnet" then .ok .testnet
  else if value = ascii "devnet" then .ok .devnet
  else .error (.missingField (ascii "network"))

/-- Digits only, and one spelling. -/
def number (value field : Text) : Except AirError UInt64 :=
  Guard.need (parseU64 value) (.badNumber field)

def isHexDigit (byte : UInt8) : Bool :=
  (Hex.digitValue byte).isSome

def toAsciiLowercase (byte : UInt8) : UInt8 :=
  if 65 ≤ byte ∧ byte ≤ 90 then byte + 32 else byte

/-- Sixty-four hexadecimal digits, in lower case from here on. -/
def nonceFrom (value : Text) : Except AirError Text := do
  Guard.refuse (value.length ≠ 64 ∨ value.any (!isHexDigit ·)) (.badNumber (ascii "nonce"))
  .ok (value.map toAsciiLowercase)

end Air

/-! ## Intents -/

/-- What the online side asks the cold wallet to sign. -/
structure Intent where
  network : NetworkId
  /-- The field `to`. -/
  recipient : Address
  amountDarks : UInt64
  feeDarks : UInt64
  /-- Chain height when this was written. -/
  tipHeight : UInt64
  /-- Ties the answer to this request. -/
  nonce : Text
  expiresUnix : UInt64
  deriving DecidableEq

namespace Intent

open Air

/-- Refuse a request this wallet must not sign. -/
def check (intent : Intent) (wallet : NetworkId) (nowUnix : UInt64) : Except AirError Unit := do
  Guard.refuse (intent.network ≠ wallet) (.wrongNetwork intent.network wallet)
  Guard.refuse (nowUnix > intent.expiresUnix) (.expired intent.expiresUnix nowUnix)

variable (P : Primitives)

def fields (intent : Intent) : List (Text × Text) :=
  [(ascii "network", intent.network.asStr),
    (ascii "to", intent.recipient.encode P),
    (ascii "amount", Utf8.decimal intent.amountDarks.toNat),
    (ascii "fee", Utf8.decimal intent.feeDarks.toNat),
    (ascii "tip", Utf8.decimal intent.tipHeight.toNat),
    (ascii "nonce", intent.nonce),
    (ascii "expires", Utf8.decimal intent.expiresUnix.toNat)]

def toText (intent : Intent) : Text :=
  packageText (ascii "intent") (intent.fields P)

def fieldNames : List Text :=
  [ascii "network", ascii "to", ascii "amount", ascii "fee", ascii "tip", ascii "nonce",
    ascii "expires"]

def parse (text : Text) : Except AirError Intent := do
  let fields ← splitPackage text (ascii "intent")
  let network ← networkFrom (← take fields (ascii "network"))
  let recipient ← (Address.decode P (← take fields (ascii "to"))).mapError fun _ => .badAddress
  let amountDarks ← number (← take fields (ascii "amount")) (ascii "amount")
  let feeDarks ← number (← take fields (ascii "fee")) (ascii "fee")
  let tipHeight ← number (← take fields (ascii "tip")) (ascii "tip")
  let nonce ← nonceFrom (← take fields (ascii "nonce"))
  let expiresUnix ← number (← take fields (ascii "expires")) (ascii "expires")
  Guard.refuse (amountDarks > maxSupplyDarks ∨ feeDarks > maxSupplyDarks) .amountTooLarge
  refuseUnknown fields fieldNames
  .ok
    { network := network
      recipient := recipient
      amountDarks := amountDarks
      feeDarks := feeDarks
      tipHeight := tipHeight
      nonce := nonce
      expiresUnix := expiresUnix }

end Intent

/-! ## Signed transactions -/

/-- The finished transaction on its way back. -/
structure Signed where
  network : NetworkId
  /-- The nonce of the intent this answers. -/
  nonce : Text
  payload : Bytes
  deriving DecidableEq

namespace Signed

open Air

def fields (signed : Signed) : List (Text × Text) :=
  [(ascii "network", signed.network.asStr),
    (ascii "nonce", signed.nonce),
    (ascii "tx", Hex.encode signed.payload)]

def toText (signed : Signed) : Text :=
  packageText (ascii "signed") signed.fields

def fieldNames : List Text :=
  [ascii "network", ascii "nonce", ascii "tx"]

def parse (text : Text) : Except AirError Signed := do
  let fields ← splitPackage text (ascii "signed")
  let payload ← Guard.need (Hex.decode (← take fields (ascii "tx"))) .badFrame
  Guard.refuse (payload = []) .payloadEmpty
  Guard.refuse (payload.length > maxPayload) (.payloadTooLarge payload.length)
  refuseUnknown fields fieldNames
  let network ← networkFrom (← take fields (ascii "network"))
  let nonce ← nonceFrom (← take fields (ascii "nonce"))
  .ok { network := network, nonce := nonce, payload := payload }

end Signed

/-! ## What a package says -/

namespace Air

open PaymentRequest (IsParameter parameter intercalate_cons)

/-- The text of a package of a kind that gives every field once. -/
structure IsPackage (text kind : Text) (entries : List (Text × Text)) : Prop where
  shape : ∃ version rest,
    Utf8.trim text = airScheme ++ 58 :: (kind ++ 58 :: (version ++ 124 :: rest)) ∧
      58 ∉ kind ∧ 124 ∉ version ∧ Utf8.parseDecimal (2 ^ 32) version = some airVersion ∧
      ((rest.splitOn 124).filter fun pair => !pair.isEmpty) =
        entries.map fun entry => parameter entry.1 entry.2
  names : ∀ entry ∈ entries, 61 ∉ entry.1
  once : (entries.map Prod.fst).Nodup

theorem foldlM_readField_eq_ok {segments : List Text} {start result : ExtTreeMap Text Text} :
    segments.foldlM readField start = .ok result ↔
      ∃ entries : List (Text × Text), segments = (entries.map fun entry => parameter entry.1 entry.2) ∧
        (∀ entry ∈ entries, 61 ∉ entry.1) ∧
        entries.foldlM (OnceMap.insertOnce AirError.repeatedField) start = .ok result := by
  induction segments generalizing start with
  | nil =>
      constructor
      · intro read
        exact ⟨[], rfl, by simp, read⟩
      · rintro ⟨entries, empty, _, read⟩
        rw [eq_comm, List.map_eq_nil_iff] at empty
        subst empty
        exact read
  | cons segment rest ih =>
      simp only [List.foldlM_cons, Guard.bind_eq_ok, readField, Guard.need_eq_ok, ih]
      constructor
      · rintro ⟨middle, ⟨entry, found, inserted⟩, entries, rfl, names, read⟩
        obtain ⟨rfl, free⟩ := Percent.splitOnce_eq_some.mp found
        refine ⟨entry :: entries, rfl, List.forall_mem_cons.mpr ⟨free, names⟩, ?_⟩
        rw [List.foldlM_cons, inserted]
        exact read
      · rintro ⟨entries, shape, names, read⟩
        cases entries with
        | nil => cases shape
        | cons entry entries =>
            obtain ⟨rfl, rfl⟩ := List.cons.inj shape
            obtain ⟨free, names⟩ := List.forall_mem_cons.mp names
            rw [List.foldlM_cons, Guard.bind_eq_ok] at read
            obtain ⟨middle, inserted, read⟩ := read
            exact ⟨middle, ⟨entry, Percent.splitOnce_eq_some.mpr ⟨rfl, free⟩, inserted⟩,
              entries, rfl, names, read⟩

theorem stripPrefix_eq_some {start text rest : Text} :
    stripPrefix start text = some rest ↔ text = start ++ rest := by
  constructor
  · intro found
    rw [stripPrefix] at found
    split at found
    · next leads =>
        obtain ⟨back, rfl⟩ := List.isPrefixOf_iff_prefix.mp leads
        simp only [List.drop_left, Option.some.injEq] at found
        rw [found]
    · cases found
  · rintro rfl
    exact stripPrefix_append start rest

/-- The parser accepts exactly the packages of the kind. -/
theorem splitPackage_eq_ok {text kind : Text} {fields : ExtTreeMap Text Text} :
    splitPackage text kind = .ok fields ↔
      ∃ entries, IsPackage text kind entries ∧ fields = OnceMap.ofPairs ∅ entries := by
  simp only [splitPackage, Guard.bind_eq_ok, Guard.need_eq_ok, Guard.refuse_eq_ok,
    foldlM_readField_eq_ok, OnceMap.foldlM_insertOnce_eq_ok, stripPrefix_eq_some, not_not]
  constructor
  · rintro ⟨rest, scheme, ⟨found, afterKind⟩, kinds, _, rfl, ⟨version, afterVersion⟩, versions,
      read, isRead, _, rfl, entries, segments, names, once, _, rfl⟩
    obtain ⟨rfl, kindFree⟩ := Percent.splitOnce_eq_some.mp kinds
    obtain ⟨rfl, versionFree⟩ := Percent.splitOnce_eq_some.mp versions
    refine ⟨entries, ⟨⟨version, afterVersion, ?_, kindFree, versionFree, isRead, segments⟩,
      names, once⟩, rfl⟩
    rw [scheme, List.append_assoc, List.singleton_append]
  · rintro ⟨entries, ⟨⟨version, rest, whole, kindFree, versionFree, isRead, segments⟩, names,
      once⟩, rfl⟩
    refine ⟨kind ++ 58 :: (version ++ 124 :: rest), ?_, (kind, version ++ 124 :: rest),
      Percent.splitOnce_append kindFree _, (), rfl, (version, rest),
      Percent.splitOnce_append versionFree _, airVersion, isRead, (), rfl, entries, segments,
      names, once, ?_, rfl⟩
    · rw [whole, List.append_assoc, List.singleton_append]
    · intro entry _
      exact ExtTreeMap.not_mem_empty

/-! ### Fields are read back -/

section Fields

variable {text kind : Text} {entries : List (Text × Text)}

theorem take_eq_ok (package : IsPackage text kind entries) {name value : Text} :
    take (OnceMap.ofPairs ∅ entries) name = .ok value ↔ (name, value) ∈ entries := by
  rw [take, Guard.need_eq_ok, OnceMap.getElem?_ofPairs_eq_some package.once
    fun _ _ => ExtTreeMap.not_mem_empty]
  simp

theorem refuseUnknown_eq_ok {fields : ExtTreeMap Text Text} {known : List Text} {done : Unit} :
    refuseUnknown fields known = .ok done ↔ ∀ key ∈ fields, key ∈ known := by
  have searched : (fields.keys.find? fun key => !known.contains key) = none ↔
      ∀ key ∈ fields, key ∈ known := by
    simp [List.find?_eq_none, ExtTreeMap.mem_keys]
  rw [← searched, refuseUnknown]
  cases fields.keys.find? fun key => !known.contains key with
  | none => simp
  | some key => simp

/-- A package with known fields only that has all of them says each of them once. -/
theorem names_perm (package : IsPackage text kind entries) {known : List Text}
    (distinct : known.Nodup) (all : ∀ name ∈ known, ∃ value, (name, value) ∈ entries)
    (only : ∀ name ∈ OnceMap.ofPairs ∅ entries, name ∈ known) :
    (entries.map Prod.fst).Perm known := by
  rw [List.perm_ext_iff_of_nodup package.once distinct]
  intro name
  constructor
  · intro member
    exact only name ((OnceMap.mem_ofPairs package.once).mpr member)
  · intro member
    obtain ⟨value, given⟩ := all name member
    exact List.mem_map.mpr ⟨_, given, rfl⟩

theorem airScheme_safe : ∀ byte ∈ airScheme, Percent.isUnreserved byte = true := by
  simp [airScheme, ascii, Percent.isUnreserved]

theorem not_isPlain_bar : ¬Percent.IsPlain 124 := by
  unfold Percent.IsPlain
  decide

/-- A package text is read back as the fields it was made of. -/
theorem isPackage_packageText (kindSafe : ∀ byte ∈ kind, Percent.isUnreserved byte = true)
    (nonempty : entries ≠ []) (shapes : ∀ entry ∈ entries, IsParameter entry.1 entry.2)
    (once : (entries.map Prod.fst).Nodup) :
    IsPackage (packageText kind entries) kind entries := by
  have graphic : ∀ byte ∈ packageText kind entries, Utf8.IsGraphic byte := by
    intro byte member
    simp only [packageText, List.mem_append, List.mem_cons, List.mem_flatMap] at member
    rcases member with member | rfl | member | rfl | member | ⟨entry, inside, rfl | member⟩
    · exact isGraphic_of_isUnreserved (airScheme_safe byte member)
    · exact ⟨by decide, by decide⟩
    · exact isGraphic_of_isUnreserved (kindSafe byte member)
    · exact ⟨by decide, by decide⟩
    · exact isGraphic_of_isUnreserved (isUnreserved_decimal byte member)
    · exact ⟨by decide, by decide⟩
    · rcases (shapes entry inside).mem member with plain | rfl
      · exact plain.isGraphic
      · exact ⟨by decide, by decide⟩
  have segments : ∀ pair ∈ entries.map fun entry => parameter entry.1 entry.2, 124 ∉ pair := by
    intro pair member bar
    obtain ⟨entry, inside, rfl⟩ := List.mem_map.mp member
    rcases (shapes entry inside).mem bar with plain | same
    · exact not_isPlain_bar plain
    · exact absurd same (by decide)
  obtain ⟨first, rest, rfl⟩ := List.exists_cons_of_ne_nil nonempty
  refine ⟨⟨Utf8.decimal airVersion, List.intercalate [124] ((first :: rest).map fun entry =>
    parameter entry.1 entry.2), ?_, ?_, ?_, Utf8.parseDecimal_decimal (by decide), ?_⟩, ?_, once⟩
  · rw [Utf8.trim_of_isGraphic graphic, packageText, List.map_cons, intercalate_cons,
      List.flatMap_cons, List.flatMap_map, List.cons_append]
  · intro colon
    exact absurd (kindSafe 58 colon) (by decide)
  · intro bar
    exact absurd (isUnreserved_decimal 124 bar) (by decide)
  · rw [List.splitOn_intercalate _ segments (List.cons_ne_nil _ _), List.filter_eq_self]
    intro pair member
    obtain ⟨entry, _, rfl⟩ := List.mem_map.mp member
    simp [parameter]
  · intro entry member equals
    exact absurd ((shapes entry member).name 61 equals) (by decide)

end Fields

theorem networkFrom_asStr (network : NetworkId) : networkFrom network.asStr = .ok network := by
  have other : ascii "testnet" ≠ ascii "mainnet" ∧ ascii "devnet" ≠ ascii "mainnet" ∧
      ascii "devnet" ≠ ascii "testnet" := by simp [ascii]
  cases network with
  | mainnet => rfl
  | testnet => simp only [NetworkId.asStr, networkFrom, if_neg other.1, if_true]
  | devnet => simp only [NetworkId.asStr, networkFrom, if_neg other.2.1, if_neg other.2.2, if_true]

theorem number_decimal (value : UInt64) (name : Text) :
    number (Utf8.decimal value.toNat) name = .ok value := by
  rw [number, Guard.need_eq_ok, parseU64_decimal]

/-- Lower-case hexadecimal digits. -/
def IsLowerHex (byte : UInt8) : Prop :=
  48 ≤ byte.toNat ∧ byte.toNat ≤ 57 ∨ 97 ≤ byte.toNat ∧ byte.toNat ≤ 102

instance (byte : UInt8) : Decidable (IsLowerHex byte) :=
  inferInstanceAs (Decidable (_ ∨ _))

/-- A nonce in its one spelling. -/
def IsNonce (nonce : Text) : Prop :=
  nonce.length = 64 ∧ ∀ byte ∈ nonce, IsLowerHex byte

instance (nonce : Text) : Decidable (IsNonce nonce) :=
  inferInstanceAs (Decidable (_ ∧ _))

theorem isHexDigit_iff {byte : UInt8} : isHexDigit byte = true ↔
    IsLowerHex byte ∨ 65 ≤ byte.toNat ∧ byte.toNat ≤ 70 := by
  simp only [isHexDigit, Hex.digitValue, IsLowerHex]
  split
  · next low => simp [low]
  · split
    · next low => simp [low]
    · split
      · next high => simp [high]
      · simp only [Option.isSome_none, Bool.false_eq_true, false_iff]
        omega

theorem toNat_toAsciiLowercase (byte : UInt8) : (toAsciiLowercase byte).toNat =
    if 65 ≤ byte.toNat ∧ byte.toNat ≤ 90 then byte.toNat + 32 else byte.toNat := by
  simp only [toAsciiLowercase, UInt8.le_iff_toNat_le, UInt8.reduceToNat]
  split
  · next upper =>
      have step : (32 : UInt8).toNat = 32 := rfl
      rw [UInt8.toNat_add, step]
      omega
  · rfl

theorem isLowerHex_toAsciiLowercase {byte : UInt8} (digit : isHexDigit byte = true) :
    IsLowerHex (toAsciiLowercase byte) := by
  rw [isHexDigit_iff] at digit
  have code := toNat_toAsciiLowercase byte
  unfold IsLowerHex at digit ⊢
  split at code <;> omega

theorem toAsciiLowercase_of_isLowerHex {byte : UInt8} (digit : IsLowerHex byte) :
    toAsciiLowercase byte = byte := by
  have code := toNat_toAsciiLowercase byte
  unfold IsLowerHex at digit
  apply UInt8.toNat_inj.mp
  split at code <;> omega

/-- A nonce is read in its one spelling. -/
theorem isNonce_of_nonceFrom {value nonce : Text} (read : nonceFrom value = .ok nonce) :
    IsNonce nonce := by
  simp only [nonceFrom, Guard.bind_eq_ok, Guard.refuse_eq_ok, Except.ok.injEq, not_or, not_not,
    List.any_eq_true, not_exists, not_and, Bool.not_eq_true', Bool.not_eq_false] at read
  obtain ⟨_, ⟨long, digits⟩, rfl⟩ := read
  refine ⟨by rw [List.length_map, long], fun byte member => ?_⟩
  obtain ⟨source, inside, rfl⟩ := List.mem_map.mp member
  exact isLowerHex_toAsciiLowercase (digits source inside)

theorem nonceFrom_of_isNonce {nonce : Text} (isNonce : IsNonce nonce) :
    nonceFrom nonce = .ok nonce := by
  have same : nonce.map toAsciiLowercase = nonce := by
    conv_rhs => rw [← List.map_id nonce]
    apply List.map_congr_left
    intro byte member
    exact toAsciiLowercase_of_isLowerHex (isNonce.2 byte member)
  simp only [nonceFrom, Guard.bind_eq_ok, Guard.refuse_eq_ok, Except.ok.injEq, not_or, not_not,
    List.any_eq_true, not_exists, not_and, Bool.not_eq_true', Bool.not_eq_false]
  refine ⟨(), ⟨isNonce.1, fun byte member => ?_⟩, same⟩
  exact isHexDigit_iff.mpr (.inl (isNonce.2 byte member))

theorem isUnreserved_of_isLowerHex {byte : UInt8} (digit : IsLowerHex byte) :
    Percent.isUnreserved byte = true := by
  unfold IsLowerHex at digit
  simp only [Percent.isUnreserved, UInt8.le_iff_toNat_le, UInt8.reduceToNat, decide_eq_true_eq]
  omega

end Air

/-! ## Packages are read back -/

open Air

theorem isParameter_of_safe {name value : Text}
    (safe : ∀ byte ∈ name, Percent.isUnreserved byte = true)
    (valueSafe : ∀ byte ∈ value, Percent.isUnreserved byte = true) :
    PaymentRequest.IsParameter name value :=
  ⟨safe, fun byte member => .inl (valueSafe byte member)⟩

namespace Intent

variable {P : Primitives} {intent : Intent} {text : Text}

/-- The intents that a text can say. -/
structure Canonical (P : Primitives) (intent : Intent) : Prop where
  scanPoint : (P.decompress intent.recipient.scanPk).isSome
  spendPoint : (P.decompress intent.recipient.spendPk).isSome
  amount : intent.amountDarks ≤ maxSupplyDarks
  fee : intent.feeDarks ≤ maxSupplyDarks
  nonce : IsNonce intent.nonce

theorem fieldNames_nodup : fieldNames.Nodup := by
  simp [fieldNames, ascii]

theorem fieldNames_safe : ∀ name ∈ fieldNames, ∀ byte ∈ name,
    Percent.isUnreserved byte = true := by
  simp [fieldNames, ascii, Percent.isUnreserved]

theorem isPackage_toText (nonce : IsNonce intent.nonce) :
    IsPackage (intent.toText P) (ascii "intent") (intent.fields P) := by
  apply isPackage_packageText
  · simp [ascii, Percent.isUnreserved]
  · exact List.cons_ne_nil _ _
  · have values : ∀ value ∈ (intent.fields P).map Prod.snd, ∀ byte ∈ value,
        Percent.isUnreserved byte = true := by
      simp only [fields, List.map_cons, List.map_nil, List.forall_mem_cons]
      exact ⟨PaymentRequest.isUnreserved_asStr _, fun _ => Address.isUnreserved_encode _,
        fun _ => isUnreserved_decimal _, fun _ => isUnreserved_decimal _,
        fun _ => isUnreserved_decimal _,
        fun byte member => isUnreserved_of_isLowerHex (nonce.2 byte member),
        fun _ => isUnreserved_decimal _, by simp⟩
    intro entry member
    have known : entry.1 ∈ fieldNames := List.mem_map_of_mem (f := Prod.fst) member
    exact isParameter_of_safe (fieldNames_safe _ known)
      (values _ (List.mem_map_of_mem (f := Prod.snd) member))
  · exact fieldNames_nodup

theorem parse_toText (canonical : intent.Canonical P) : parse P (intent.toText P) = .ok intent := by
  have package := isPackage_toText (P := P) canonical.nonce
  have given (name value : Text) (member : (name, value) ∈ intent.fields P) :
      take (OnceMap.ofPairs ∅ (intent.fields P)) name = .ok value :=
    (take_eq_ok package).mpr member
  have only : ∀ name ∈ OnceMap.ofPairs ∅ (intent.fields P), name ∈ fieldNames := by
    intro name member
    exact (OnceMap.mem_ofPairs package.once).mp member
  simp only [parse, Guard.bind_eq_ok, Guard.refuse_eq_ok, Guard.mapError_eq_ok,
    splitPackage_eq_ok, refuseUnknown_eq_ok]
  refine ⟨_, ⟨_, package, rfl⟩, _, given (ascii "network") _ (by simp [fields]), _, networkFrom_asStr _,
    _, given (ascii "to") _ (by simp [fields]), _, Address.decode_encode canonical.scanPoint canonical.spendPoint,
    _, given (ascii "amount") _ (by simp [fields]), _, number_decimal _ _,
    _, given (ascii "fee") _ (by simp [fields]), _, number_decimal _ _,
    _, given (ascii "tip") _ (by simp [fields]), _, number_decimal _ _,
    _, given (ascii "nonce") _ (by simp [fields]), _, nonceFrom_of_isNonce canonical.nonce,
    _, given (ascii "expires") _ (by simp [fields]), _, number_decimal _ _, (), ?_, (), only, rfl⟩
  rintro (above | above)
  · exact absurd canonical.amount (UInt64.not_le.mpr above)
  · exact absurd canonical.fee (UInt64.not_le.mpr above)

/-- What the parser has checked of an intent and of its text. -/
theorem canonical_of_parse (read : parse P text = .ok intent) : intent.Canonical P ∧
    ∃ entries, IsPackage text (ascii "intent") entries ∧
      (entries.map Prod.fst).Perm fieldNames := by
  simp only [parse, Guard.bind_eq_ok, Guard.refuse_eq_ok, Guard.mapError_eq_ok,
    splitPackage_eq_ok, refuseUnknown_eq_ok, not_or] at read
  obtain ⟨_, ⟨entries, package, rfl⟩, network, isNetwork, _, _, recipient, isTo, _, decoded, amount,
    isAmount, _, _, fee, isFee, _, _, tip, isTip, _, _, nonce, isNonce, _, nonceRead, expires,
    isExpires, _, _, _, ⟨amountBound, feeBound⟩, _, only, same⟩ := read
  rw [take_eq_ok package] at isNetwork isTo isAmount isFee isTip isNonce isExpires
  have points := Address.points_of_decode decoded
  cases same
  refine ⟨⟨points.1, points.2, UInt64.not_lt.mp amountBound, UInt64.not_lt.mp feeBound,
    isNonce_of_nonceFrom nonceRead⟩, entries, package,
    names_perm package fieldNames_nodup ?_ only⟩
  simp only [fieldNames, List.forall_mem_cons]
  exact ⟨⟨_, isNetwork⟩, ⟨_, isTo⟩, ⟨_, isAmount⟩, ⟨_, isFee⟩, ⟨_, isTip⟩, ⟨_, isNonce⟩,
    ⟨_, isExpires⟩, by simp⟩

end Intent

namespace Signed

variable {signed : Signed} {text : Text}

/-- The packages that a text can say. -/
structure Canonical (signed : Signed) : Prop where
  nonempty : signed.payload ≠ []
  short : signed.payload.length ≤ maxPayload
  nonce : IsNonce signed.nonce

theorem fieldNames_nodup : fieldNames.Nodup := by
  simp [fieldNames, ascii]

theorem fieldNames_safe : ∀ name ∈ fieldNames, ∀ byte ∈ name,
    Percent.isUnreserved byte = true := by
  simp [fieldNames, ascii, Percent.isUnreserved]

theorem isPackage_toText (nonce : IsNonce signed.nonce) :
    IsPackage signed.toText (ascii "signed") signed.fields := by
  apply isPackage_packageText
  · simp [ascii, Percent.isUnreserved]
  · exact List.cons_ne_nil _ _
  · have values : ∀ value ∈ signed.fields.map Prod.snd, ∀ byte ∈ value,
        Percent.isUnreserved byte = true := by
      simp only [fields, List.map_cons, List.map_nil, List.forall_mem_cons]
      exact ⟨PaymentRequest.isUnreserved_asStr _,
        fun byte member => isUnreserved_of_isLowerHex (nonce.2 byte member),
        fun _ => isUnreserved_hex _, by simp⟩
    intro entry member
    have known : entry.1 ∈ fieldNames := List.mem_map_of_mem (f := Prod.fst) member
    exact isParameter_of_safe (fieldNames_safe _ known)
      (values _ (List.mem_map_of_mem (f := Prod.snd) member))
  · exact fieldNames_nodup

theorem parse_toText (canonical : signed.Canonical) : parse signed.toText = .ok signed := by
  have package := isPackage_toText canonical.nonce
  have given (name value : Text) (member : (name, value) ∈ signed.fields) :
      take (OnceMap.ofPairs ∅ signed.fields) name = .ok value :=
    (take_eq_ok package).mpr member
  have only : ∀ name ∈ OnceMap.ofPairs ∅ signed.fields, name ∈ fieldNames := by
    intro name member
    exact (OnceMap.mem_ofPairs package.once).mp member
  simp only [parse, Guard.bind_eq_ok, Guard.refuse_eq_ok, Guard.need_eq_ok, splitPackage_eq_ok,
    refuseUnknown_eq_ok]
  exact ⟨_, ⟨_, package, rfl⟩, _, given (ascii "tx") _ (by simp [fields]), _,
    Hex.decode_encode _, (), canonical.nonempty, (), Nat.not_lt.mpr canonical.short, (), only,
    _, given (ascii "network") _ (by simp [fields]), _, networkFrom_asStr _,
    _, given (ascii "nonce") _ (by simp [fields]), _, nonceFrom_of_isNonce canonical.nonce, rfl⟩

/-- What the parser has checked of a package and of its text. -/
theorem canonical_of_parse (read : parse text = .ok signed) : signed.Canonical ∧
    ∃ entries, IsPackage text (ascii "signed") entries ∧
      (entries.map Prod.fst).Perm fieldNames := by
  simp only [parse, Guard.bind_eq_ok, Guard.refuse_eq_ok, Guard.need_eq_ok, splitPackage_eq_ok,
    refuseUnknown_eq_ok] at read
  obtain ⟨_, ⟨entries, package, rfl⟩, tx, isTx, payload, _, _, nonempty, _, short, _, only,
    network, isNetwork, _, _, nonce, isNonce, _, nonceRead, same⟩ := read
  rw [take_eq_ok package] at isTx isNetwork isNonce
  cases same
  refine ⟨⟨nonempty, Nat.not_lt.mp short, isNonce_of_nonceFrom nonceRead⟩, entries, package,
    names_perm package fieldNames_nodup ?_ only⟩
  simp only [fieldNames, List.forall_mem_cons]
  exact ⟨⟨_, isNetwork⟩, ⟨_, isNonce⟩, ⟨_, isTx⟩, by simp⟩

end Signed

/-- An intent is read back from its text exactly if it is in its one spelling, a signed
package exactly if its nonce is; whatever is read is in its one spelling and was a package of
the right kind and version with every field once and no other; and two intents that were
read have the same text exactly if they are equal. -/
theorem Air.packages_exact (P : Primitives) :
    (∀ intent : Intent, Intent.parse P (intent.toText P) = .ok intent ↔ intent.Canonical P) ∧
    (∀ signed : Signed, signed.payload ≠ [] → signed.payload.length ≤ maxPayload →
      (Signed.parse signed.toText = .ok signed ↔ IsNonce signed.nonce)) ∧
    (∀ text intent, Intent.parse P text = .ok intent →
      Intent.parse P (intent.toText P) = .ok intent ∧
      ∃ entries, IsPackage text (ascii "intent") entries ∧
        (entries.map Prod.fst).Perm Intent.fieldNames) ∧
    (∀ text signed, Signed.parse text = .ok signed →
      Signed.parse signed.toText = .ok signed ∧
      ∃ entries, IsPackage text (ascii "signed") entries ∧
        (entries.map Prod.fst).Perm Signed.fieldNames) ∧
    ∀ first second text text', Intent.parse P text = .ok first →
      Intent.parse P text' = .ok second →
        (first.toText P = second.toText P ↔ first = second) := by
  have back {text : Text} {intent : Intent} (read : Intent.parse P text = .ok intent) :
      Intent.parse P (intent.toText P) = .ok intent :=
    Intent.parse_toText (Intent.canonical_of_parse read).1
  refine ⟨?_, ?_, ?_, ?_, ?_⟩
  · intro intent
    exact ⟨fun read => (Intent.canonical_of_parse read).1, Intent.parse_toText⟩
  · intro signed nonempty short
    exact ⟨fun read => (Signed.canonical_of_parse read).1.nonce,
      fun nonce => Signed.parse_toText ⟨nonempty, short, nonce⟩⟩
  · intro text intent read
    exact ⟨back read, (Intent.canonical_of_parse read).2⟩
  · intro text signed read
    obtain ⟨canonical, package⟩ := Signed.canonical_of_parse read
    exact ⟨Signed.parse_toText canonical, package⟩
  · intro first second text text' readFirst readSecond
    constructor
    · intro same
      have read := back readFirst
      rw [same, back readSecond] at read
      exact (Except.ok.inj read).symm
    · rintro rfl
      rfl

namespace Sample

/-- A payload of one byte under an empty nonce. -/
def unanswered : Signed where
  network := .devnet
  nonce := []
  payload := [1]

/-- A request under a nonce in capital letters. -/
def capitalIntent : Intent where
  network := .devnet
  recipient := keys.address
  amountDarks := 5
  feeDarks := 1
  tipHeight := 0
  nonce := List.replicate 64 65
  expiresUnix := 0

/-- Neither a package under a malformed nonce nor a request under a nonce in capital letters
comes back. -/
theorem nonces_not_read_back :
    (unanswered.payload ≠ [] ∧ unanswered.payload.length ≤ maxPayload ∧
      Signed.parse unanswered.toText ≠ .ok unanswered) ∧
    (Air.nonceFrom capitalIntent.nonce = .ok (List.replicate 64 97) ∧
      Intent.parse primitives (capitalIntent.toText primitives) ≠ .ok capitalIntent) := by
  refine ⟨⟨by decide, by decide, fun read => ?_⟩, by decide, fun read => ?_⟩
  · have nonce := (Signed.canonical_of_parse read).1.nonce
    revert nonce
    decide
  · have nonce := (Intent.canonical_of_parse read).1.nonce
    revert nonce
    decide

end Sample

end Nightfall
