import Nightfall.Library.Decimal
import Nightfall.Library.IpText
import Nightfall.Library.Percent
import Nightfall.Library.Guard
import Nightfall.Types

/-!
# Dial targets

`host:port` and `[ipv6]:port`, once as an acceptance test and once as a parser at connect
time, and the request that is sent to a SOCKS5 proxy.  The test splits a target without
brackets at the last colon and the parser at the first.
-/

namespace Nightfall

open Utf8 (Text)

/-! ## The two parsers -/

/-- `split_once` with a text as the separator. -/
def splitOnceAt (separator : Text) : Text → Option (Text × Text)
  | [] => none
  | byte :: rest =>
      if separator.isPrefixOf (byte :: rest) then
        some ([], (byte :: rest).drop separator.length)
      else (splitOnceAt separator rest).map fun parts => (byte :: parts.1, parts.2)

/-- `rsplit_once`: the text before and after the last separator. -/
def rsplitOnce (separator : UInt8) (text : Text) : Option (Text × Text) :=
  (Percent.splitOnce separator text.reverse).map fun parts =>
    (parts.2.reverse, parts.1.reverse)

def parsePort (text : Text) : Option Nat :=
  Utf8.parseDecimal (2 ^ 16) text

/-- A host in front of a port other than zero. -/
def hasHostAndPort (parts : Text × Text) : Bool :=
  parts.1 ≠ [] && (parsePort parts.2).any (· > 0)

/-- `host:port` or `[ipv6]:port`.  Does not resolve. -/
def looksLikeDialTarget (addr : Text) : Bool :=
  let addr := Utf8.trim addr
  if addr = [] ∨ addr.head? = some 58 then false
  else if addr.head? = some 91 then
    (splitOnceAt [93, 58] addr.tail).any hasHostAndPort
  else (rsplitOnce 58 addr).any hasHostAndPort

inductive SocksError where
  | notAProxy
  | badIpv6Target
  | badPort
  | portZero
  | notHostPort
  | nameTooLong
  | unexpectedEof
  | refusedConnect
  | notSocks5
  | reservedByte
  | connectFailed (code : UInt8)
  | unknownAddressType
  deriving DecidableEq

/-- The port of a dial target. -/
def readPort (parts : Text × Text) : Except SocksError (Text × Nat) := do
  let port ← Guard.need (parsePort parts.2) .badPort
  Guard.refuse (port = 0) .portZero
  .ok (parts.1, port)

def splitHostPort (addr : Text) : Except SocksError (Text × Nat) :=
  let addr := Utf8.trim addr
  if addr.head? = some 91 then do
    let parts ← Guard.need (splitOnceAt [93, 58] addr.tail) .badIpv6Target
    readPort parts
  else do
    let parts ← Guard.need ((Percent.splitOnce 58 addr).filter (·.1 ≠ [])) .notHostPort
    readPort parts

/-! ## The proxy -/

structure SocksProxy where
  addr : Text
  deriving DecidableEq

/-- Accepts a dial target with or without a scheme. -/
def SocksProxy.parse (text : Text) : Except SocksError SocksProxy := do
  let text := Utf8.trim text
  let strip (scheme : Text) : Option Text :=
    if scheme.isPrefixOf text then some (text.drop scheme.length) else none
  let rest := ((strip (ascii "socks5h://")).or
    ((strip (ascii "socks5://")).or (strip (ascii "socks://")))).getD text
  let rest := Utf8.trim rest
  Guard.refuse (¬looksLikeDialTarget rest) .notAProxy
  .ok { addr := rest }

/-- Where a request leads. -/
inductive Destination where
  | ipv4 (octets : Bytes)
  | ipv6 (octets : Bytes)
  | name (host : Text)
  deriving DecidableEq

/-- What a host is taken for. -/
def Destination.ofHost (host : Text) : Destination :=
  match IpText.parseIpv4 host with
  | some octets => .ipv4 octets
  | none =>
      match IpText.parseIpv6 host with
      | some octets => .ipv6 octets
      | none => .name host

/-- The address type and the address inside a request. -/
def Destination.encode : Destination → Except SocksError Bytes
  | ipv4 octets => .ok (1 :: octets)
  | ipv6 octets => .ok (4 :: octets)
  | name host => do
      Guard.refuse (host.length > 255) .nameTooLong
      .ok (3 :: UInt8.ofNat host.length :: host)

def portBytes (port : Nat) : Bytes :=
  [UInt8.ofNat (port / 256), UInt8.ofNat port]

/-- The CONNECT request for a target. -/
def socks5Request (dest : Text) : Except SocksError Bytes := do
  let target ← splitHostPort dest
  let address ← (Destination.ofHost target.1).encode
  .ok ([5, 1, 0] ++ address ++ portBytes target.2)

/-- Greeting: one method, no authentication. -/
def greeting : Bytes := [5, 1, 0]

/-- Skip the bound address of a reply. -/
def consumeBindAddr (atyp : UInt8) (incoming : Bytes) : Except SocksError Unit :=
  if atyp = 1 then Guard.refuse (incoming.length < 6) .unexpectedEof
  else if atyp = 4 then Guard.refuse (incoming.length < 18) .unexpectedEof
  else if atyp = 3 then
    match incoming with
    | [] => .error .unexpectedEof
    | length :: rest => Guard.refuse (rest.length < length.toNat + 2) .unexpectedEof
  else .error .unknownAddressType

/-- The proxy's answer to a request. -/
def readReply (incoming : Bytes) : Except SocksError Unit :=
  match incoming with
  | version :: code :: reserved :: atyp :: rest => do
      Guard.refuse (version ≠ 5) .notSocks5
      Guard.refuse (reserved ≠ 0) .reservedByte
      Guard.refuse (code ≠ 0) (.connectFailed code)
      consumeBindAddr atyp rest
  | _ => .error .unexpectedEof

/-- What was sent to the proxy, and how the exchange ended. -/
structure Exchange where
  sent : List Bytes
  result : Except SocksError Unit

/-- The whole exchange with a proxy that sends `incoming`. -/
def socks5Connect (dest : Text) (incoming : Bytes) : Exchange :=
  match incoming with
  | version :: method :: rest =>
      if version ≠ 5 ∨ method ≠ 0 then ⟨[greeting], .error .refusedConnect⟩
      else
        match socks5Request dest with
        | .error error => ⟨[greeting], .error error⟩
        | .ok request => ⟨[greeting, request], readReply rest⟩
  | _ => ⟨[greeting], .error .unexpectedEof⟩

/-! ## Reading a request -/

/-- What a proxy reads off a request. -/
def readRequest (request : Bytes) : Option (Destination × Nat) :=
  let read (length : Nat) (make : Bytes → Destination) (rest : Bytes) :
      Option (Destination × Nat) :=
    match rest.drop length with
    | [high, low] => some (make (rest.take length), high.toNat * 256 + low.toNat)
    | _ => none
  match request with
  | 5 :: 1 :: 0 :: atyp :: rest =>
      if atyp = 1 then read 4 .ipv4 rest
      else if atyp = 4 then read 16 .ipv6 rest
      else if atyp = 3 then read (rest.headD 0).toNat .name rest.tail
      else none
  | _ => none

/-! ## What the acceptance test sees -/

variable {addr host portText : Text} {port : Nat}

theorem rsplitOnce_eq_some {separator : UInt8} {text front back : Text} :
    rsplitOnce separator text = some (front, back) ↔
      text = front ++ separator :: back ∧ separator ∉ back := by
  rw [rsplitOnce, Option.map_eq_some_iff]
  constructor
  · rintro ⟨parts, found, same⟩
    obtain ⟨rfl, rfl⟩ := Prod.mk.inj same
    obtain ⟨shape, free⟩ := Percent.splitOnce_eq_some.mp (Prod.mk.eta (p := parts) ▸ found)
    refine ⟨?_, by simpa using free⟩
    rw [← List.reverse_reverse text, shape]
    simp
  · rintro ⟨rfl, free⟩
    refine ⟨(back.reverse, front.reverse), ?_, by simp⟩
    rw [Percent.splitOnce_eq_some]
    simp [free]

/-- The host and the port that the acceptance test sees in an accepted text. -/
structure Sees (addr host portText : Text) (port : Nat) : Prop where
  named : host ≠ []
  read : parsePort portText = some port
  positive : 0 < port
  shape : ((Utf8.trim addr).head? = some 91 ∧
      splitOnceAt [93, 58] (Utf8.trim addr).tail = some (host, portText)) ∨
    ((Utf8.trim addr).head? ≠ some 91 ∧ (Utf8.trim addr).head? ≠ some 58 ∧
      Utf8.trim addr = host ++ 58 :: portText ∧ 58 ∉ portText)

theorem hasHostAndPort_iff {parts : Text × Text} :
    hasHostAndPort parts = true ↔
      parts.1 ≠ [] ∧ ∃ port, parsePort parts.2 = some port ∧ 0 < port := by
  rw [hasHostAndPort, Bool.and_eq_true, decide_eq_true_eq, Option.any_eq_true]
  simp

theorem looksLikeDialTarget_iff :
    looksLikeDialTarget addr = true ↔ ∃ host portText port, Sees addr host portText port := by
  constructor
  · intro accepted
    unfold looksLikeDialTarget at accepted
    dsimp only at accepted
    split at accepted
    · cases accepted
    next started =>
        rw [not_or] at started
        split at accepted
        next bracketed =>
            rw [Option.any_eq_true] at accepted
            obtain ⟨parts, found, good⟩ := accepted
            obtain ⟨host, port, read, positive⟩ := hasHostAndPort_iff.mp good
            exact ⟨parts.1, parts.2, port, host, read, positive, .inl ⟨bracketed, found⟩⟩
        next bare =>
            rw [Option.any_eq_true] at accepted
            obtain ⟨parts, found, good⟩ := accepted
            obtain ⟨host, port, read, positive⟩ := hasHostAndPort_iff.mp good
            obtain ⟨shape, last⟩ :=
              rsplitOnce_eq_some.mp (show _ = some (parts.1, parts.2) from found)
            exact ⟨parts.1, parts.2, port, host, read, positive,
              .inr ⟨bare, started.2, shape, last⟩⟩
  · rintro ⟨host, portText, port, some, read, positive, shape⟩
    have good : hasHostAndPort (host, portText) = true :=
      hasHostAndPort_iff.mpr ⟨some, port, read, positive⟩
    unfold looksLikeDialTarget
    dsimp only
    rcases shape with ⟨bracketed, found⟩ | ⟨bare, started, shape, last⟩
    · have start : ¬(Utf8.trim addr = [] ∨ (Utf8.trim addr).head? = Option.some 58) := by
        rw [bracketed, not_or]
        refine ⟨fun none => ?_, by decide⟩
        rw [none] at bracketed
        cases bracketed
      rw [if_neg start, if_pos bracketed, found]
      exact good
    · have start : ¬(Utf8.trim addr = [] ∨ (Utf8.trim addr).head? = Option.some 58) := by
        refine not_or.mpr ⟨?_, started⟩
        rw [shape]
        simp
      rw [if_neg start, if_neg bare, rsplitOnce_eq_some.mpr ⟨shape, last⟩]
      exact good

theorem parsePort_colon {text : Text} (inside : 58 ∈ text) : parsePort text = none := by
  cases read : parsePort text with
  | none => rfl
  | some port =>
      have digit := Utf8.isDigit_of_parseDecimal read 58 inside
      exact absurd digit (by decide)

theorem parsePort_lt (read : parsePort portText = some port) : port < 2 ^ 16 :=
  Utf8.parseDecimal_lt read

namespace Sees

theorem readPort_eq (sees : Sees addr host portText port) :
    readPort (host, portText) = .ok (host, port) := by
  have nonzero : ¬port = 0 := Nat.pos_iff_ne_zero.mp sees.positive
  simp only [readPort, Guard.bind_eq_ok, Guard.need_eq_ok, Guard.refuse_eq_ok]
  exact ⟨port, sees.read, (), nonzero, rfl⟩

/-- The parser reads the same host and port, unless there is another colon. -/
theorem splitHostPort_eq (sees : Sees addr host portText port) :
    splitHostPort addr =
      if (Utf8.trim addr).head? = some 91 ∨ (Utf8.trim addr).count 58 = 1 then .ok (host, port)
      else .error .badPort := by
  rcases sees.shape with ⟨bracketed, found⟩ | ⟨bare, started, shape, last⟩
  · rw [if_pos (.inl bracketed), splitHostPort, if_pos bracketed, found]
    exact sees.readPort_eq
  · have count : (Utf8.trim addr).count 58 = host.count 58 + 1 := by
      rw [shape, List.count_append, List.count_cons_self, List.count_eq_zero.mpr last]
    by_cases single : 58 ∈ host
    · have several : 0 < host.count 58 := List.count_pos_iff.mpr single
      rw [if_neg (not_or.mpr ⟨bare, by omega⟩)]
      obtain ⟨front, back, rfl, first⟩ := List.eq_append_cons_of_mem single
      have split : Percent.splitOnce 58 (Utf8.trim addr) =
          some (front, back ++ 58 :: portText) := by
        rw [Percent.splitOnce_eq_some, shape]
        exact ⟨by simp, first⟩
      have some : front ≠ [] := by
        rintro rfl
        exact started (by rw [shape]; rfl)
      have unread : parsePort (back ++ 58 :: portText) = none :=
        parsePort_colon (List.mem_append_right _ List.mem_cons_self)
      rw [splitHostPort, if_neg bare, split, Option.filter_some, if_pos (by simpa using some)]
      refine Guard.bind_eq_error.mpr (.inr ⟨_, rfl, ?_⟩)
      refine Guard.bind_eq_error.mpr (.inl ?_)
      rw [unread]
      rfl
    · have none : host.count 58 = 0 := List.count_eq_zero.mpr single
      rw [if_pos (.inr (by omega)), splitHostPort, if_neg bare,
        Percent.splitOnce_eq_some.mpr ⟨shape, single⟩, Option.filter_some,
        if_pos (by simpa using sees.named)]
      exact sees.readPort_eq

end Sees

/-! ## What the proxy reads -/

/-- An address of the right length for its type. -/
def Destination.Sized : Destination → Prop
  | .ipv4 octets => octets.length = 4
  | .ipv6 octets => octets.length = 16
  | .name host => host.length ≤ 255

/-- A request is read as the destination and the port that it was built from. -/
theorem readRequest_request {destination : Destination} (sized : destination.Sized)
    (fits : port < 2 ^ 16) :
    ∃ address, destination.encode = .ok address ∧
      readRequest ([5, 1, 0] ++ address ++ portBytes port) = some (destination, port) := by
  have whole : port / 256 % 256 * 256 + port % 256 = port := by omega
  cases destination with
  | ipv4 octets =>
      refine ⟨_, rfl, ?_⟩
      have length : octets.length = 4 := sized
      simp [readRequest, portBytes, ← length, whole]
  | ipv6 octets =>
      refine ⟨_, rfl, ?_⟩
      have length : octets.length = 16 := sized
      simp [readRequest, portBytes, ← length, whole]
  | name host =>
      have short : host.length ≤ 255 := sized
      have length : (UInt8.ofNat host.length).toNat = host.length := by
        rw [UInt8.toNat_ofNat']
        omega
      refine ⟨3 :: UInt8.ofNat host.length :: host, ?_, ?_⟩
      · simp [Destination.encode, short]
      · simp [readRequest, portBytes, length, whole]

theorem sized_ofHost_iff :
    (Destination.ofHost host).Sized ↔
      (IpText.parseIpv4 host).isSome ∨ (IpText.parseIpv6 host).isSome ∨ host.length ≤ 255 := by
  unfold Destination.ofHost
  cases four : IpText.parseIpv4 host with
  | some octets => simpa [Destination.Sized] using IpText.parseIpv4_length four
  | none =>
      cases six : IpText.parseIpv6 host with
      | some octets => simpa [Destination.Sized] using IpText.parseIpv6_length six
      | none => simp [Destination.Sized]

theorem not_encode_of_not_sized (unsized : ¬(Destination.ofHost host).Sized) :
    (Destination.ofHost host).encode = .error .nameTooLong := by
  rw [sized_ofHost_iff, not_or, not_or] at unsized
  obtain ⟨four, six, long⟩ := unsized
  rw [Option.not_isSome_iff_eq_none] at four six
  rw [Destination.ofHost, four, six]
  simp only [Destination.encode, Guard.refuse, if_pos (Nat.not_le.mp long)]
  rfl

/-! ## Agreement -/

/-- The parser reads what the acceptance test saw, and a proxy that takes the greeting is
asked for exactly that host and port. -/
def DialsAsSeen (addr host : Text) (port : Nat) : Prop :=
  splitHostPort addr = .ok (host, port) ∧
    ∀ rest, ∃ request, (socks5Connect addr (5 :: 0 :: rest)).sent = [greeting, request] ∧
      readRequest request = some (Destination.ofHost host, port)

theorem sent_eq {rest : Bytes} :
    (socks5Connect addr (5 :: 0 :: rest)).sent =
      match socks5Request addr with
      | .error _ => [greeting]
      | .ok request => [greeting, request] := by
  simp only [socks5Connect, ne_eq, not_true_eq_false, or_self, if_false]
  cases socks5Request addr with
  | error error => rfl
  | ok request => rfl

theorem Sees.dialsAsSeen_iff (sees : Sees addr host portText port) :
    DialsAsSeen addr host port ↔
      ((Utf8.trim addr).head? = some 91 ∨ (Utf8.trim addr).count 58 = 1) ∧
        ((IpText.parseIpv4 host).isSome ∨ (IpText.parseIpv6 host).isSome ∨
          host.length ≤ 255) := by
  rw [← sized_ofHost_iff]
  constructor
  · rintro ⟨split, sent⟩
    have single : (Utf8.trim addr).head? = some 91 ∨ (Utf8.trim addr).count 58 = 1 := by
      by_contra several
      rw [sees.splitHostPort_eq, if_neg several] at split
      cases split
    refine ⟨single, ?_⟩
    by_contra unsized
    have refused : socks5Request addr = .error .nameTooLong := by
      refine Guard.bind_eq_error.mpr (.inr ⟨_, split, ?_⟩)
      exact Guard.bind_eq_error.mpr (.inl (not_encode_of_not_sized unsized))
    obtain ⟨request, both, _⟩ := sent []
    rw [sent_eq, refused] at both
    cases both
  · rintro ⟨single, sized⟩
    have split : splitHostPort addr = .ok (host, port) := by
      rw [sees.splitHostPort_eq, if_pos single]
    refine ⟨split, fun rest => ?_⟩
    obtain ⟨address, encoded, read⟩ := readRequest_request sized (parsePort_lt sees.read)
    have built : socks5Request addr = .ok ([5, 1, 0] ++ address ++ portBytes port) :=
      (Guard.bind_eq_ok _ _ _).mpr ⟨_, split, (Guard.bind_eq_ok _ _ _).mpr ⟨_, encoded, rfl⟩⟩
    refine ⟨_, ?_, read⟩
    rw [sent_eq, built]

/-- A target that is accepted has a host and a port.  They are what is dialled exactly when
the host is in brackets or free of colons, and an address or a name of at most 255 bytes; no
other host or port is ever dialled in their place. -/
theorem dial_targets_agree_iff {addr : Text} (accepted : looksLikeDialTarget addr = true) :
    ∃ host portText port, Sees addr host portText port ∧
      (∀ other, splitHostPort addr = .ok other → other = (host, port)) ∧
      (DialsAsSeen addr host port ↔
        ((Utf8.trim addr).head? = some 91 ∨ (Utf8.trim addr).count 58 = 1) ∧
          ((IpText.parseIpv4 host).isSome ∨ (IpText.parseIpv6 host).isSome ∨
            host.length ≤ 255)) := by
  obtain ⟨host, portText, port, sees⟩ := looksLikeDialTarget_iff.mp accepted
  refine ⟨host, portText, port, sees, ?_, sees.dialsAsSeen_iff⟩
  intro other split
  rw [sees.splitHostPort_eq] at split
  split at split
  · exact (Except.ok.inj split).symm
  · cases split

/-- A name with a port is dialled. -/
theorem dial_targets_agree_onion :
    DialsAsSeen (ascii "node.onion:17891") (ascii "node.onion") 17891 := by
  obtain ⟨host, portText, port, _, only, agrees⟩ :=
    @dial_targets_agree_iff (ascii "node.onion:17891") (by decide +kernel)
  have split : splitHostPort (ascii "node.onion:17891") = .ok (ascii "node.onion", 17891) := by
    decide +kernel
  obtain ⟨rfl, rfl⟩ := Prod.mk.inj (only _ split)
  exact agrees.mpr ⟨.inr (by decide +kernel), .inr (.inr (by decide +kernel))⟩

/-- An address of version 6 without brackets is accepted, and refused when it is dialled. -/
theorem bare_ipv6_refused :
    looksLikeDialTarget (ascii "2001:db8::1:17891") = true ∧
      splitHostPort (ascii "2001:db8::1:17891") = .error .badPort := by
  decide +kernel

end Nightfall
