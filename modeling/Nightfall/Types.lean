import Nightfall.Library.Hex
import Nightfall.Library.Machine

/-!
# Protocol constants

Byte strings, the network identities and the consensus constants that the other
modules read.
-/

namespace Nightfall

abbrev Bytes := List UInt8

/-- A 32-byte array read as a big-endian number, so that the lexicographic order
of arrays is the numeric order. -/
abbrev Bytes32 := BitVec 256

abbrev Hash256 := Bytes32

instance Bytes.lawfulBEq : LawfulBEq Bytes := inferInstance

instance Bytes32.lawfulBEq : LawfulBEq Bytes32 := inferInstance

instance Bytes32.transOrd : Std.TransOrd Bytes32 := inferInstance

namespace Bytes32

/-- The bytes of the array, first byte first. -/
def toBytes (array : Bytes32) : Bytes :=
  (List.range 32).map fun index =>
    UInt8.ofNat (array.toNat >>> (8 * (31 - index)))

end Bytes32

@[simp] theorem Bytes32.length_toBytes (array : Bytes32) : array.toBytes.length = 32 := by
  simp [Bytes32.toBytes]

theorem Bytes32.toBytes_injective : Function.Injective Bytes32.toBytes := by
  intro left right same
  apply BitVec.eq_of_toNat_eq
  refine @Machine.eq_of_bytes_eq _ _ 32 left.isLt right.isLt fun index inside => ?_
  have byte := List.map_inj_left.mp same (31 - index) (List.mem_range.mpr (by omega))
  rwa [Nat.sub_sub_self (by omega)] at byte

namespace Bytes32

/-- The array with these bytes.  `none` for another length. -/
def ofBytes (bytes : Bytes) : Option Bytes32 :=
  if bytes.length = 32 then
    some (BitVec.ofNat 256 (bytes.foldl (fun total byte => 256 * total + byte.toNat) 0))
  else none

theorem ofBytes_toBytes (array : Bytes32) : ofBytes array.toBytes = some array := by
  have leading (count : Nat) (inside : count ≤ 32) :
      ((List.range count).map fun index => UInt8.ofNat (array.toNat >>> (8 * (31 - index)))).foldl
        (fun total byte => 256 * total + byte.toNat) 0 = array.toNat >>> (8 * (32 - count)) := by
    induction count with
    | zero =>
        have bounded := array.isLt
        simp only [List.range_zero, List.map_nil, List.foldl_nil, Nat.shiftRight_eq_div_pow]
        exact (Nat.div_eq_of_lt bounded).symm
    | succ count ih =>
        have shift : 8 * (32 - count) = 8 * (31 - count) + 8 := by omega
        have here : 32 - (count + 1) = 31 - count := by omega
        simp only [List.range_succ, List.map_append, List.foldl_append, ih (by omega), List.map_cons,
          List.map_nil, List.foldl_cons, List.foldl_nil, UInt8.toNat_ofNat', shift,
          here, Nat.shiftRight_add, Nat.shiftRight_eq_div_pow _ 8]
        exact Nat.div_add_mod (array.toNat >>> (8 * (31 - count))) 256
  rw [ofBytes, if_pos array.length_toBytes, toBytes, leading 32 le_rfl]
  simp

/-- `to_hex` of a 32-byte array. -/
def toHex (array : Bytes32) : Bytes :=
  Hex.encode array.toBytes

theorem toHex_injective : Function.Injective toHex :=
  Hex.encode_injective.comp toBytes_injective

theorem toHex_ne_nil (array : Bytes32) : array.toHex ≠ [] := by
  intro empty
  have length := congrArg List.length empty
  simp [toHex] at length

end Bytes32

/-- `decode32` of a hexadecimal text. -/
def decode32 (text : Bytes) : Option Bytes32 :=
  (Hex.decode text).bind Bytes32.ofBytes

@[simp] theorem decode32_toHex (array : Bytes32) : decode32 array.toHex = some array := by
  simp [decode32, Bytes32.toHex, Hex.decode_encode, Bytes32.ofBytes_toBytes]

/-- The bytes of an ASCII literal. -/
def ascii (text : String) : Bytes :=
  text.toList.map fun char => UInt8.ofNat char.toNat

/-- `u64::to_le_bytes`. -/
def u64LeBytes (value : UInt64) : Bytes :=
  (List.range 8).map fun index => UInt8.ofNat (value.toNat >>> (8 * index))

/-- `u32::to_le_bytes`. -/
def u32LeBytes (value : UInt32) : Bytes :=
  (List.range 4).map fun index => UInt8.ofNat (value.toNat >>> (8 * index))

@[simp] theorem length_u64LeBytes (value : UInt64) : (u64LeBytes value).length = 8 := by
  simp [u64LeBytes]

@[simp] theorem length_u32LeBytes (value : UInt32) : (u32LeBytes value).length = 4 := by
  simp [u32LeBytes]

theorem u64LeBytes_injective : Function.Injective u64LeBytes := by
  intro left right same
  apply UInt64.toNat_inj.mp
  refine @Machine.eq_of_bytes_eq _ _ 8 left.toNat_lt right.toNat_lt fun index inside => ?_
  exact List.map_inj_left.mp same index (List.mem_range.mpr inside)

theorem u32LeBytes_injective : Function.Injective u32LeBytes := by
  intro left right same
  apply UInt32.toNat_inj.mp
  refine @Machine.eq_of_bytes_eq _ _ 4 left.toNat_lt right.toNat_lt fun index inside => ?_
  exact List.map_inj_left.mp same index (List.mem_range.mpr inside)

def protocolVersion : UInt32 := 8

def darksPerNight : UInt64 := 100000000
def maxSupplyNight : UInt64 := 90000000
def maxSupplyDarks : UInt64 := maxSupplyNight * darksPerNight
def initialBlockRewardNight : UInt64 := 6
def halvingIntervalBlocks : UInt64 := 7500000
def targetBlockTimeSecs : Nat := 15
def difficultyWindow : Nat := 90
def minDifficulty : UInt64 := 2000
def bindingForkHeightMainnet : UInt64 := 500000
def maxFutureDriftSecs : UInt64 := 120
def mtpWindow : Nat := 11
def lwmaMinSolvetimeFactor : Int := -5
def lwmaMaxSolvetimeFactor : Int := 6

/-- Block hashes this build refuses to disagree with, by height. -/
def checkpoints : List (UInt64 × Hash256) :=
  [(25000, 0x71c8b97b1e8a20f9f29d9e873110e41223b0c96aa9ce773feaee78c97bdd247e#256)]

/-- The pinned hash for `height`.  The table is the same on every network. -/
def checkpointAt (height : UInt64) : Option Hash256 :=
  (checkpoints.find? fun entry => entry.1 = height).map Prod.snd

/-- Highest pinned height, or 0 when there are no checkpoints. -/
def highestCheckpointHeight : UInt64 :=
  (checkpoints.map Prod.fst).foldl max 0

structure PowParams where
  memoryKib : UInt32
  iterations : UInt32
  lanes : UInt32
  deriving DecidableEq, Repr

inductive NetworkId where
  | mainnet
  | testnet
  | devnet
  deriving DecidableEq, Repr

namespace NetworkId

def initialDifficulty : NetworkId → UInt64
  | devnet => 60
  | testnet => 30000
  | mainnet => 5000

def minDifficulty : NetworkId → UInt64
  | devnet => 1
  | testnet => 1000
  | mainnet => Nightfall.minDifficulty

def proofContext : NetworkId → Bytes
  | mainnet => ascii "nightfall:mainnet:v8"
  | testnet => ascii "nightfall:testnet:v8"
  | devnet => ascii "nightfall:devnet:v8"

def powParams : NetworkId → PowParams
  | mainnet => ⟨32 * 1024, 1, 1⟩
  | testnet => ⟨8 * 1024, 1, 1⟩
  | devnet => ⟨1024, 1, 1⟩

/-- First height at which the binding rules apply. -/
def bindingForkHeight : NetworkId → UInt64
  | mainnet => bindingForkHeightMainnet
  | testnet => 0
  | devnet => 20

end NetworkId

end Nightfall
