import Nightfall.Storage.Layout
import Nightfall.Storage.Trust
import Nightfall.Wallet.Sample
import Nightfall.Wallet.VaultStore

/-!
# A concrete vault

A state text that determines the state, a key that depends on the password and the salt, and
a cipher that leaves the plaintext readable and puts a tag of the key behind it.
-/

namespace Nightfall

open PrefixCode (IsPrefixCode)

/-! ## The state as a text -/

def bincodeOfBool (value : Bool) : Bytes :=
  [if value then 1 else 0]

def OwnedOutput.bincode (output : OwnedOutput) : Bytes :=
  output.commit.toBytes ++ u64LeBytes output.value ++ bincodeOfBytes output.blindHex ++
    bincodeOfBytes output.keyOffsetHex ++ bincodeOfBytes output.memo ++
    u64LeBytes output.height ++ bincodeOfBool output.spent ++ bincodeOfBool output.isCoinbase

def Direction.bincode : Direction → Bytes
  | .received => u32LeBytes 0
  | .sent => u32LeBytes 1
  | .mined => u32LeBytes 2

def Transaction.bincode (transaction : Transaction) : Bytes :=
  u32LeBytes transaction.version ++ PrefixCode.list Input.bincode transaction.inputs ++
    PrefixCode.list Output.bincode transaction.outputs ++
    PrefixCode.list TxKernel.bincode transaction.kernels ++
    PrefixCode.option Bytes32.toBytes transaction.stealthOffset ++
    PrefixCode.option Bytes32.toBytes transaction.kernelOffset

def HistoryEntry.bincode (entry : HistoryEntry) : Bytes :=
  entry.direction.bincode ++ u64LeBytes entry.amount ++ u64LeBytes entry.fee ++
    bincodeOfBytes entry.memo ++ PrefixCode.option u64LeBytes entry.height ++
    bincodeOfBytes entry.txid ++ u64LeBytes entry.timestamp ++
    PrefixCode.list Bytes32.toBytes entry.spentCommits ++
    PrefixCode.option Transaction.bincode entry.raw ++ bincodeOfBool entry.quarantined ++
    bincodeOfBool entry.failed

def WalletFile.bincode (file : WalletFile) : Bytes :=
  PrefixCode.list OwnedOutput.bincode file.outputs ++ u64LeBytes file.scannedTo ++
    PrefixCode.list HistoryEntry.bincode file.history ++ u64LeBytes file.birthHeight ++
    PrefixCode.list bincodeOfBytes file.reserved ++ bincodeOfBytes file.scannedTip ++
    PrefixCode.list bincodeOfBytes file.swapJournal

def ExportedState.bincode (state : ExportedState) : Bytes :=
  PrefixCode.count state.v ++ bincodeOfBytes state.network ++ bincodeOfBytes state.seed ++
    state.db.bincode

section Bincode

theorem bool_prefixCode : IsPrefixCode bincodeOfBool :=
  PrefixCode.isPrefixCode_of_length (fun _ => rfl) (by decide)

theorem OwnedOutput.prefixCode : IsPrefixCode OwnedOutput.bincode := by
  rintro ⟨⟩ ⟨⟩ after after' same
  simp only [OwnedOutput.bincode, List.append_assoc] at same
  obtain ⟨commit, same⟩ := toBytes_prefixCode _ _ _ _ same
  obtain ⟨value, same⟩ := u64_prefixCode _ _ _ _ same
  obtain ⟨blind, same⟩ := bytes_prefixCode _ _ _ _ same
  obtain ⟨offset, same⟩ := bytes_prefixCode _ _ _ _ same
  obtain ⟨memo, same⟩ := bytes_prefixCode _ _ _ _ same
  obtain ⟨height, same⟩ := u64_prefixCode _ _ _ _ same
  obtain ⟨spent, same⟩ := bool_prefixCode _ _ _ _ same
  obtain ⟨coinbase, same⟩ := bool_prefixCode _ _ _ _ same
  exact ⟨by rw [commit, value, blind, offset, memo, height, spent, coinbase], same⟩

theorem Direction.prefixCode : IsPrefixCode Direction.bincode := by
  have size (direction : Direction) : direction.bincode.length = 4 := by
    cases direction <;> rfl
  refine PrefixCode.isPrefixCode_of_length size fun left right same => ?_
  cases left <;> cases right <;> first | rfl | exact absurd same (by decide)

theorem Transaction.prefixCode : IsPrefixCode Transaction.bincode := by
  rintro ⟨⟩ ⟨⟩ after after' same
  simp only [Transaction.bincode, List.append_assoc] at same
  obtain ⟨version, same⟩ := u32_prefixCode _ _ _ _ same
  obtain ⟨inputs, same⟩ := Input.prefixCode.list _ _ _ _ same
  obtain ⟨outputs, same⟩ := Output.prefixCode.list _ _ _ _ same
  obtain ⟨kernels, same⟩ := TxKernel.prefixCode.list _ _ _ _ same
  obtain ⟨stealthOffset, same⟩ := toBytes_prefixCode.option _ _ _ _ same
  obtain ⟨kernelOffset, same⟩ := toBytes_prefixCode.option _ _ _ _ same
  exact ⟨by rw [version, inputs, outputs, kernels, stealthOffset, kernelOffset], same⟩

theorem HistoryEntry.prefixCode : IsPrefixCode HistoryEntry.bincode := by
  rintro ⟨⟩ ⟨⟩ after after' same
  simp only [HistoryEntry.bincode, List.append_assoc] at same
  obtain ⟨direction, same⟩ := Direction.prefixCode _ _ _ _ same
  obtain ⟨amount, same⟩ := u64_prefixCode _ _ _ _ same
  obtain ⟨fee, same⟩ := u64_prefixCode _ _ _ _ same
  obtain ⟨memo, same⟩ := bytes_prefixCode _ _ _ _ same
  obtain ⟨height, same⟩ := u64_prefixCode.option _ _ _ _ same
  obtain ⟨txid, same⟩ := bytes_prefixCode _ _ _ _ same
  obtain ⟨timestamp, same⟩ := u64_prefixCode _ _ _ _ same
  obtain ⟨spent, same⟩ := toBytes_prefixCode.list _ _ _ _ same
  obtain ⟨raw, same⟩ := Transaction.prefixCode.option _ _ _ _ same
  obtain ⟨quarantined, same⟩ := bool_prefixCode _ _ _ _ same
  obtain ⟨failed, same⟩ := bool_prefixCode _ _ _ _ same
  refine ⟨?_, same⟩
  rw [direction, amount, fee, memo, height, txid, timestamp, spent, raw, quarantined, failed]

theorem WalletFile.prefixCode : IsPrefixCode WalletFile.bincode := by
  rintro ⟨⟩ ⟨⟩ after after' same
  simp only [WalletFile.bincode, List.append_assoc] at same
  obtain ⟨outputs, same⟩ := OwnedOutput.prefixCode.list _ _ _ _ same
  obtain ⟨scannedTo, same⟩ := u64_prefixCode _ _ _ _ same
  obtain ⟨history, same⟩ := HistoryEntry.prefixCode.list _ _ _ _ same
  obtain ⟨birthHeight, same⟩ := u64_prefixCode _ _ _ _ same
  obtain ⟨reserved, same⟩ := bytes_prefixCode.list _ _ _ _ same
  obtain ⟨scannedTip, same⟩ := bytes_prefixCode _ _ _ _ same
  obtain ⟨swapJournal, same⟩ := bytes_prefixCode.list _ _ _ _ same
  exact ⟨by rw [outputs, scannedTo, history, birthHeight, reserved, scannedTip, swapJournal], same⟩

theorem ExportedState.prefixCode : IsPrefixCode ExportedState.bincode := by
  rintro ⟨⟩ ⟨⟩ after after' same
  simp only [ExportedState.bincode, List.append_assoc] at same
  obtain ⟨version, same⟩ := PrefixCode.count_prefix _ _ _ _ same
  obtain ⟨network, same⟩ := bytes_prefixCode _ _ _ _ same
  obtain ⟨seed, same⟩ := bytes_prefixCode _ _ _ _ same
  obtain ⟨db, same⟩ := WalletFile.prefixCode _ _ _ _ same
  exact ⟨by rw [version, network, seed, db], same⟩

end Bincode

namespace Sample

/-- The digits of the bytes of a state. -/
def stateText (state : ExportedState) : Text :=
  Hex.encode state.bincode

theorem stateText_injective : Function.Injective stateText :=
  Hex.encode_injective.comp ExportedState.prefixCode.injective

def tag (key : Bytes32) : Bytes :=
  key.toBytes.take 16

noncomputable def vaultCode : VaultCode where
  maxPlaintextBytes := 256 * 1024 * 1024
  writeState := stateText
  readState := PrefixCode.inverse stateText
  journalValid _ := true
  argon2 password salt := some (digest (password ++ salt))
  encrypt key _ _ plain := some (plain ++ tag key)
  decrypt key _ _ ciphertext :=
    let length := ciphertext.length - 16
    if ciphertext.drop length = tag key then some (ciphertext.take length) else none

theorem vaultCode_sound : vaultCode.Sound where
  faithful := PrefixCode.inverse_write stateText_injective
  text state := Utf8.isValid_of_isGraphic (Datadir.isGraphic_hex _)
  opens key nonce header plain ciphertext encrypted := by
    obtain rfl := Option.some.inj encrypted
    have size : (tag key).length = 16 := by simp [tag]
    refine ⟨by rw [List.length_append, size]; rfl, ?_⟩
    simp [vaultCode, size]

noncomputable def vaultHost : VaultHost where
  code := vaultCode
  readDatabase := PrefixCode.inverse WalletFile.bincode
  writeDatabase := WalletFile.bincode

def password : Text := ascii "correct horse battery"

def storeSalt : FixedBytes 16 :=
  ⟨List.replicate 16 5, by simp⟩

def storeDraws : StoreDraws where
  salt := some storeSalt
  nonce := some ⟨List.replicate 24 6, by simp⟩
  pending := some [1]
  retirement := some [2]

end Sample

end Nightfall
