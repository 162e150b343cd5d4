import Nightfall.Ledger.Accepted
import Nightfall.Sample

/-!
# What the hash of a body binds

The hash reads one byte string per input, output and kernel, and the two offsets.  Outputs
are the only long strings, so the three sets can be told apart, and every string can be read
back.  Missing binding fields are written as zeros.
-/

namespace Nightfall

variable (P : Primitives)

/-! ## Assumptions on the primitives -/

/-- Blake3 does not collide on these byte strings. -/
def Primitives.CollisionFreeOn (texts : List Bytes) : Prop :=
  ∀ left ∈ texts, ∀ right ∈ texts, P.blake3 left = P.blake3 right → left = right

instance (texts : List Bytes) : Decidable (P.CollisionFreeOn texts) :=
  inferInstanceAs (Decidable (∀ left ∈ texts, ∀ right ∈ texts,
    P.blake3 left = P.blake3 right → left = right))

variable {P} in
theorem Primitives.CollisionFreeOn.mono {texts fewer : List Bytes}
    (collisionFree : P.CollisionFreeOn texts) (subset : fewer ⊆ texts) :
    P.CollisionFreeOn fewer :=
  fun left inside right inside' => collisionFree left (subset inside) right (subset inside')

/-- The length of a range proof for 64 bits: 21 elements of 32 bytes. -/
def rangeProofLength : Nat := 672

/-- The verifier takes only proofs of that length. -/
def Primitives.FixedProofLength : Prop :=
  ∀ proof commit ctx, P.rangeVerify proof commit ctx = true → proof.length = rangeProofLength

variable {P}

/-! ## Reading a preimage back -/

/-- A list of parts whose count and lengths fit their prefixes. -/
structure Framed (parts : List Bytes) : Prop where
  count : parts.length < 2 ^ 64
  lengths : ∀ part ∈ parts, part.length < 2 ^ 64

theorem u64LeBytes_length_inj {left right : Nat} (leftFits : left < 2 ^ 64)
    (rightFits : right < 2 ^ 64)
    (same : u64LeBytes (UInt64.ofNat left) = u64LeBytes (UInt64.ofNat right)) : left = right := by
  have words := congrArg UInt64.toNat (u64LeBytes_injective same)
  rwa [UInt64.toNat_ofNat_of_lt' leftFits, UInt64.toNat_ofNat_of_lt' rightFits] at words

/-- Length-prefixed parts can be read back one by one. -/
theorem parts_eq_of_flatMap_eq {left right : List Bytes} (count : left.length = right.length)
    (leftFits : ∀ part ∈ left, part.length < 2 ^ 64)
    (rightFits : ∀ part ∈ right, part.length < 2 ^ 64)
    (same : (left.flatMap fun part => u64LeBytes (UInt64.ofNat part.length) ++ part) =
      right.flatMap fun part => u64LeBytes (UInt64.ofNat part.length) ++ part) :
    left = right := by
  induction left generalizing right with
  | nil => exact (List.length_eq_zero_iff.mp count.symm).symm
  | cons part rest ih =>
      cases right with
      | nil => simp at count
      | cons other others =>
          simp only [List.flatMap_cons, List.append_assoc] at same
          obtain ⟨prefixes, behind⟩ := List.append_inj same (by simp)
          have length := u64LeBytes_length_inj (leftFits part (by simp))
            (rightFits other (by simp)) prefixes
          obtain ⟨rfl, later⟩ := List.append_inj behind length
          rw [ih (Nat.succ.inj count) (fun part member => leftFits part (by simp [member]))
            (fun part member => rightFits part (by simp [member])) later]

theorem parts_eq_of_hashPreimage_eq {domain : Bytes} {left right : List Bytes}
    (leftFramed : Framed left) (rightFramed : Framed right)
    (same : hashPreimage domain left = hashPreimage domain right) : left = right := by
  simp only [hashPreimage, List.append_assoc] at same
  have behind := List.append_cancel_left (List.append_cancel_left same)
  obtain ⟨counts, parts⟩ := List.append_inj behind (by simp)
  exact parts_eq_of_flatMap_eq (u64LeBytes_length_inj leftFramed.count rightFramed.count counts)
    leftFramed.lengths rightFramed.lengths parts

/-- Domains of different lengths do not meet. -/
theorem hashPreimage_ne_of_domain {domain other : Bytes} (fits : domain.length < 2 ^ 64)
    (otherFits : other.length < 2 ^ 64) (lengths : domain.length ≠ other.length)
    (left right : List Bytes) : hashPreimage domain left ≠ hashPreimage other right := by
  intro same
  simp only [hashPreimage, List.append_assoc] at same
  exact lengths (u64LeBytes_length_inj fits otherFits (List.append_inj same (by simp)).1)

/-- A list in three sections is determined where the elements of the middle one, which is not
empty, can be told apart. -/
theorem sections_eq {α : Type*} (middle : α → Bool) {first first' second second' third third' : List α}
    (same : first ++ second ++ third = first' ++ second' ++ third')
    (outside : ∀ element ∈ first ++ third, middle element = false)
    (outside' : ∀ element ∈ first' ++ third', middle element = false)
    (inside : ∀ element ∈ second, middle element = true)
    (inside' : ∀ element ∈ second', middle element = true)
    (nonempty : second ≠ []) (nonempty' : second' ≠ []) :
    first = first' ∧ second = second' ∧ third = third' := by
  have front {one two three : List α} (outside : ∀ element ∈ one ++ three, middle element = false)
      (inside : ∀ element ∈ two, middle element = true) (nonempty : two ≠ []) :
      (one ++ two ++ three).takeWhile (fun element => !middle element) = one := by
    obtain ⟨head, tail, rfl⟩ := List.exists_cons_of_ne_nil nonempty
    rw [List.append_assoc, List.takeWhile_append_of_pos]
    · simp [inside head (by simp)]
    · intro element member
      simp [outside element (List.mem_append_left _ member)]
  have back {two three : List α} (outside : ∀ element ∈ three, middle element = false)
      (inside : ∀ element ∈ two, middle element = true) :
      (two ++ three).takeWhile middle = two := by
    rw [List.takeWhile_append_of_pos inside]
    cases three with
    | nil => simp
    | cons head tail => simp [outside head (by simp)]
  have firsts : first = first' := by
    rw [← front outside inside nonempty, same, front outside' inside' nonempty']
  subst firsts
  rw [List.append_assoc, List.append_assoc] at same
  have rest := List.append_cancel_left same
  have seconds : second = second' := by
    rw [← back (fun element member => outside element (List.mem_append_right _ member)) inside,
      rest, back (fun element member => outside' element (List.mem_append_right _ member)) inside']
  subst seconds
  exact ⟨rfl, rfl, List.append_cancel_left rest⟩

theorem map_eq_of_map_eq {α β γ : Type*} {view : α → β} {form : α → γ} {left right : List α}
    (determines : ∀ one ∈ left, ∀ other ∈ right, view one = view other → form one = form other)
    (same : left.map view = right.map view) : left.map form = right.map form := by
  induction left generalizing right with
  | nil => simpa [eq_comm] using same
  | cons head tail ih =>
      cases right with
      | nil => simp at same
      | cons head' tail' =>
          simp only [List.map_cons, List.cons.injEq] at same ⊢
          refine ⟨determines head (by simp) head' (by simp) same.1, ih ?_ same.2⟩
          intro one inTail other inTail'
          exact determines one (by simp [inTail]) other (by simp [inTail'])

/-! ## What the hash reads of one element -/

theorem Bytes32.toBytes_append_inj {left right : Bytes32} {behind behind' : Bytes} :
    left.toBytes ++ behind = right.toBytes ++ behind' ↔ left = right ∧ behind = behind' := by
  constructor
  · intro same
    obtain ⟨arrays, rest⟩ := List.append_inj same (by simp)
    exact ⟨Bytes32.toBytes_injective arrays, rest⟩
  · rintro ⟨rfl, rfl⟩
    rfl

theorem SchnorrSig.ext_iff_parts {left right : SchnorrSig} :
    left = right ↔ left.r = right.r ∧ left.s = right.s := by
  cases left
  cases right
  simp

/-- The input as the hash reads it: missing binding fields as zeros, or none at all. -/
def Input.hashedForm (bound : Bool) (input : Input) : Input :=
  if bound then
    { input with
      inputKey := some (input.inputKey.getD 0)
      keySig := some (input.keySig.getD ⟨0, 0⟩) }
  else input.stripBinding

/-- The kernel as the hash reads it. -/
def TxKernel.hashedForm (bound : Bool) (kernel : TxKernel) : TxKernel :=
  if bound then
    { kernel with
      stealthExcess := some (kernel.stealthExcess.getD 0)
      stealthSig := some (kernel.stealthSig.getD ⟨0, 0⟩) }
  else kernel.stripBinding

/-- What the signing message of a kernel is hashed from. -/
def TxKernel.signingParts (kernel : TxKernel) : List Bytes :=
  [[match kernel.feature with | .plain => 0 | .coinbase => 1], u64LeBytes kernel.feeDarks,
    u64LeBytes kernel.rewardDarks, u64LeBytes kernel.lockHeight, kernel.excess.toBytes]

theorem TxKernel.signingMessage_eq (kernel : TxKernel) :
    kernel.signingMessage P = (hashMulti P Domain.kernel kernel.signingParts).toBytes := rfl

namespace BlockBody

theorem length_inputHashPart (bound : Bool) (input : Input) :
    (inputHashPart bound input).length = if bound then 192 else 96 := by
  cases bound <;> simp [inputHashPart]

theorem length_kernelHashPart (bound : Bool) (kernel : TxKernel) :
    (kernelHashPart P bound kernel).length = if bound then 192 else 96 := by
  cases bound <;> simp [kernelHashPart, TxKernel.signingMessage]

theorem length_outputHashPart (output : Output) :
    (outputHashPart output).length = 162 + output.rangeProof.length + output.payload.length := by
  simp only [outputHashPart, Output.commitmentBytes, List.length_append, List.length_cons,
    Bytes32.length_toBytes, List.length_nil]
  omega

theorem hashedForm_of_inputHashPart {bound : Bool} {left right : Input}
    (same : inputHashPart bound left = inputHashPart bound right) :
    left.hashedForm bound = right.hashedForm bound := by
  cases bound with
  | true =>
      simp only [inputHashPart, if_true, List.append_assoc, Bytes32.toBytes_append_inj,
        Bytes32.toBytes_injective.eq_iff] at same
      obtain ⟨commit, r, s, key, keyR, keyS⟩ := same
      simp only [Input.hashedForm, if_true, Input.mk.injEq, Option.some.injEq,
        SchnorrSig.ext_iff_parts]
      exact ⟨commit, ⟨r, s⟩, key, keyR, keyS⟩
  | false =>
      simp only [inputHashPart, Bool.false_eq_true, if_false, List.append_assoc,
        Bytes32.toBytes_append_inj, Bytes32.toBytes_injective.eq_iff] at same
      simp only [Input.hashedForm, Bool.false_eq_true, if_false, Input.stripBinding,
        Input.mk.injEq, SchnorrSig.ext_iff_parts, and_true]
      exact same

theorem eq_of_outputHashPart {left right : Output}
    (proofs : left.rangeProof.length = right.rangeProof.length)
    (same : outputHashPart left = outputHashPart right) : left = right := by
  have lengths := congrArg List.length same
  rw [length_outputHashPart, length_outputHashPart] at lengths
  have payloads : left.payload.length = right.payload.length := by omega
  obtain ⟨features, commit, proof, ephemeral, key, tag, payload, sig⟩ := left
  obtain ⟨features', commit', proof', ephemeral', key', tag', payload', sig'⟩ := right
  simp only [outputHashPart, Output.commitmentBytes, List.cons_append, List.append_assoc,
    List.cons.injEq, Bytes32.toBytes_append_inj, List.nil_append] at same
  obtain ⟨feature, rfl, rfl, rfl, rfl, behind⟩ := same
  obtain ⟨rfl, behindProof⟩ := List.append_inj behind proofs
  obtain ⟨rfl, signature⟩ := List.append_inj behindProof payloads
  simp only [Bytes32.toBytes_append_inj, Bytes32.toBytes_injective.eq_iff] at signature
  obtain rfl := SchnorrSig.ext_iff_parts.mpr signature
  cases features <;> cases features' <;> simp [OutputFeature.byte] at feature <;> rfl

/-- Kernels are read through their signing messages, which Blake3 keeps apart. -/
theorem hashedForm_of_kernelHashPart {bound : Bool} {left right : TxKernel}
    (collisionFree : P.CollisionFreeOn [hashPreimage Domain.kernel left.signingParts,
      hashPreimage Domain.kernel right.signingParts])
    (same : kernelHashPart P bound left = kernelHashPart P bound right) :
    left.hashedForm bound = right.hashedForm bound := by
  have fields (messages : hashMulti P Domain.kernel left.signingParts =
      hashMulti P Domain.kernel right.signingParts) :
      left.feature = right.feature ∧ left.feeDarks = right.feeDarks ∧
        left.rewardDarks = right.rewardDarks ∧ left.lockHeight = right.lockHeight ∧
        left.excess = right.excess := by
    have preimages := collisionFree _ (by simp) _ (by simp) messages
    have parts := hashPreimage_injective (by simp [TxKernel.signingParts]) preimages
    simp only [TxKernel.signingParts, List.cons.injEq, u64LeBytes_injective.eq_iff,
      Bytes32.toBytes_injective.eq_iff, and_true] at parts
    refine ⟨?_, parts.2⟩
    have features := parts.1
    cases one : left.feature <;> cases other : right.feature <;> simp [one, other] at features <;> rfl
  cases bound with
  | true =>
      simp only [kernelHashPart, if_true, TxKernel.signingMessage_eq, List.append_assoc,
        Bytes32.toBytes_append_inj, Bytes32.toBytes_injective.eq_iff] at same
      obtain ⟨message, r, s, stealth, stealthR, stealthS⟩ := same
      obtain ⟨feature, fee, reward, lock, excess⟩ := fields message
      simp only [TxKernel.hashedForm, if_true, TxKernel.mk.injEq, Option.some.injEq,
        SchnorrSig.ext_iff_parts]
      exact ⟨feature, fee, reward, lock, excess, ⟨r, s⟩, stealth, stealthR, stealthS⟩
  | false =>
      simp only [kernelHashPart, Bool.false_eq_true, if_false, TxKernel.signingMessage_eq,
        List.append_assoc, Bytes32.toBytes_append_inj, Bytes32.toBytes_injective.eq_iff] at same
      obtain ⟨message, r, s⟩ := same
      obtain ⟨feature, fee, reward, lock, excess⟩ := fields message
      simp only [TxKernel.hashedForm, Bool.false_eq_true, if_false, TxKernel.stripBinding,
        TxKernel.mk.injEq, SchnorrSig.ext_iff_parts, and_true]
      exact ⟨feature, fee, reward, lock, excess, r, s⟩

/-! ## The whole body -/

/-- The body as the hash reads it. -/
def hashedForm (bound : Bool) (body : BlockBody) : BlockBody where
  inputs := body.inputs.map (Input.hashedForm bound)
  outputs := body.outputs
  kernels := body.kernels.map (TxKernel.hashedForm bound)
  stealthOffset := if bound then some (body.stealthOffset.getD 0) else none
  kernelOffset := if bound then some (body.kernelOffset.getD 0) else none

def hashDomain (bound : Bool) : Bytes :=
  if bound then Domain.txbodyBound else Domain.txbody

/-- The offsets inside the body hash. -/
def offsetParts (bound : Bool) (body : BlockBody) : List Bytes :=
  if bound then [(body.stealthOffset.getD 0).toBytes, (body.kernelOffset.getD 0).toBytes] else []

variable (P) in
def hashParts (bound : Bool) (body : BlockBody) : List Bytes :=
  body.inputs.map (inputHashPart bound) ++ body.outputs.map outputHashPart ++
    (body.kernels.map (kernelHashPart P bound) ++ body.offsetParts bound)

variable (P) in
/-- The byte strings that Blake3 reads to hash a body. -/
def hashPreimages (body : BlockBody) : List Bytes :=
  hashPreimage (hashDomain body.hasAnyBinding) (body.hashParts P body.hasAnyBinding) ::
    body.kernels.map fun kernel => hashPreimage Domain.kernel kernel.signingParts

theorem hash_eq (body : BlockBody) :
    body.hash P =
      hashMulti P (hashDomain body.hasAnyBinding) (body.hashParts P body.hasAnyBinding) := by
  unfold hash hashDomain hashParts offsetParts
  cases body.hasAnyBinding <;> simp

/-- A body whose hash can be read back: it has outputs, few elements, and each of them is in
memory. -/
structure Readable (body : BlockBody) : Prop where
  outputs_ne : body.outputs ≠ []
  size : body.exceedsSizeLimits = false
  proofs : ∀ output ∈ body.outputs, output.rangeProof.length = rangeProofLength
  payloads : ∀ output ∈ body.outputs, output.payload.length < 2 ^ 63

theorem Readable.framed {body : BlockBody} (readable : body.Readable) (bound : Bool) :
    Framed (body.hashParts P bound) where
  count := by
    have size := readable.size
    simp [exceedsSizeLimits, maxBlockInputs, maxBlockOutputs, maxBlockKernels] at size
    have offsets : (body.offsetParts bound).length ≤ 2 := by
      cases bound <;> simp [offsetParts]
    simp only [hashParts, List.length_append, List.length_map]
    omega
  lengths := by
    intro part member
    simp only [hashParts, List.mem_append, List.mem_map] at member
    rcases member with (⟨input, _, rfl⟩ | ⟨output, inside, rfl⟩) | ⟨kernel, _, rfl⟩ | offset
    · rw [length_inputHashPart]
      split <;> norm_num
    · have proof := readable.proofs output inside
      have payload := readable.payloads output inside
      rw [length_outputHashPart, proof, rangeProofLength]
      omega
    · rw [length_kernelHashPart]
      split <;> norm_num
    · cases bound with
      | false => simp [offsetParts] at offset
      | true =>
          simp only [offsetParts, if_true, List.mem_cons, List.not_mem_nil, or_false] at offset
          rcases offset with rfl | rfl <;> simp

/-- The three sets can be read off the parts: only outputs carry a range proof. -/
theorem Readable.sections {left right : BlockBody} (leftReadable : left.Readable)
    (rightReadable : right.Readable) {bound : Bool}
    (same : left.hashParts P bound = right.hashParts P bound) :
    left.inputs.map (inputHashPart bound) = right.inputs.map (inputHashPart bound) ∧
      left.outputs.map outputHashPart = right.outputs.map outputHashPart ∧
      left.kernels.map (kernelHashPart P bound) = right.kernels.map (kernelHashPart P bound) ∧
      left.offsetParts bound = right.offsetParts bound := by
  let long : Bytes → Bool := fun part => decide (rangeProofLength ≤ part.length)
  have short (body : BlockBody) : ∀ part ∈ body.inputs.map (inputHashPart bound) ++
      (body.kernels.map (kernelHashPart P bound) ++ body.offsetParts bound), long part = false := by
    intro part member
    simp only [List.mem_append, List.mem_map] at member
    rcases member with ⟨input, _, rfl⟩ | ⟨kernel, _, rfl⟩ | offset
    · cases bound <;> simp [long, length_inputHashPart, rangeProofLength]
    · cases bound <;> simp [long, length_kernelHashPart, rangeProofLength]
    · cases bound with
      | false => simp [offsetParts] at offset
      | true =>
          simp only [offsetParts, if_true, List.mem_cons, List.not_mem_nil, or_false] at offset
          rcases offset with rfl | rfl <;> simp [long, rangeProofLength]
  have proven {body : BlockBody} (readable : body.Readable) :
      ∀ part ∈ body.outputs.map outputHashPart, long part = true := by
    intro part member
    obtain ⟨output, inside, rfl⟩ := List.mem_map.mp member
    have proof := readable.proofs output inside
    simp only [long, length_outputHashPart, decide_eq_true_eq]
    omega
  obtain ⟨inputs, outputs, rest⟩ := sections_eq long same (short left) (short right)
    (proven leftReadable) (proven rightReadable) (by simpa using leftReadable.outputs_ne)
    (by simpa using rightReadable.outputs_ne)
  have offsets : (left.offsetParts bound).length = (right.offsetParts bound).length := by
    cases bound <;> simp [offsetParts]
  obtain ⟨kernels, behind⟩ := List.append_inj' rest offsets
  exact ⟨inputs, outputs, kernels, behind⟩

/-- Equal hashes come from the same form of body. -/
theorem Readable.hashedForm_eq {left right : BlockBody} (leftReadable : left.Readable)
    (rightReadable : right.Readable)
    (collisionFree : P.CollisionFreeOn (left.hashPreimages P ++ right.hashPreimages P))
    (same : left.hash P = right.hash P) :
    left.hasAnyBinding = right.hasAnyBinding ∧
      left.hashedForm left.hasAnyBinding = right.hashedForm left.hasAnyBinding := by
  rw [hash_eq, hash_eq] at same
  have preimages := collisionFree _ (by simp [hashPreimages]) _ (by simp [hashPreimages]) same
  have bindings : left.hasAnyBinding = right.hasAnyBinding := by
    by_contra differ
    refine hashPreimage_ne_of_domain ?_ ?_ ?_ _ _ preimages
    · cases left.hasAnyBinding <;> decide
    · cases right.hasAnyBinding <;> decide
    · revert differ
      cases left.hasAnyBinding <;> cases right.hasAnyBinding <;> decide
  refine ⟨bindings, ?_⟩
  rw [← bindings] at preimages
  have parts := parts_eq_of_hashPreimage_eq (leftReadable.framed _) (rightReadable.framed _)
    preimages
  obtain ⟨inputs, outputs, kernels, offsets⟩ := leftReadable.sections rightReadable parts
  have preimage {body : BlockBody} {kernel : TxKernel} (inside : kernel ∈ body.kernels) :
      hashPreimage Domain.kernel kernel.signingParts ∈ body.hashPreimages P :=
    List.mem_cons_of_mem _ (List.mem_map_of_mem inside)
  simp only [hashedForm, BlockBody.mk.injEq]
  refine ⟨?_, ?_, ?_, ?_⟩
  · exact map_eq_of_map_eq (fun _ _ _ _ part => hashedForm_of_inputHashPart part) inputs
  · have outputsKept := @map_eq_of_map_eq _ _ _ outputHashPart id _ _
      (fun one inLeft other inRight part => eq_of_outputHashPart
        ((leftReadable.proofs one inLeft).trans (rightReadable.proofs other inRight).symm) part)
      outputs
    simpa using outputsKept
  · apply map_eq_of_map_eq _ kernels
    intro one inLeft other inRight part
    refine hashedForm_of_kernelHashPart (collisionFree.mono ?_) part
    intro text member
    simp only [List.mem_cons, List.not_mem_nil, or_false] at member
    rcases member with rfl | rfl
    · exact List.mem_append_left _ (preimage inLeft)
    · exact List.mem_append_right _ (preimage inRight)
  · cases bound : left.hasAnyBinding with
    | false => simp
    | true =>
        simp only [offsetParts, bound, if_true, List.cons.injEq, and_true,
          Bytes32.toBytes_injective.eq_iff] at offsets
        simpa using offsets

/-! ## Offsets written out -/

/-- The body with absent offsets written as zeros. -/
def spellOffsets (body : BlockBody) : BlockBody :=
  { body with
    stealthOffset := some (body.stealthOffset.getD 0)
    kernelOffset := some (body.kernelOffset.getD 0) }

/-- The bodies differ, and only in that an offset is absent in one of them and all zeros in
the other. -/
def DifferInZeroOffset (left right : BlockBody) : Prop :=
  left ≠ right ∧ left.spellOffsets = right.spellOffsets

/-- No output holds more than a vector can. -/
def InMemory (body : BlockBody) : Prop :=
  ∀ output ∈ body.outputs, output.payload.length < 2 ^ 63

/-- Every input and every kernel carries its binding fields. -/
structure Keyed (body : BlockBody) : Prop where
  inputs : ∀ input ∈ body.inputs, input.inputKey.isSome ∧ input.keySig.isSome
  kernels : ∀ kernel ∈ body.kernels, kernel.stealthExcess.isSome ∧ kernel.stealthSig.isSome

theorem Keyed.hasAnyBinding {body : BlockBody} (keyed : body.Keyed) (nonempty : body.kernels ≠ []) :
    body.hasAnyBinding = true := by
  obtain ⟨kernel, rest, split⟩ := List.exists_cons_of_ne_nil nonempty
  have present := keyed.kernels kernel (by simp [split])
  simp [BlockBody.hasAnyBinding, split, present.1]

/-- Of a keyed body the hash reads everything but the presence of the offsets. -/
theorem Keyed.hashedForm_eq {body : BlockBody} (keyed : body.Keyed) :
    body.hashedForm true = body.spellOffsets := by
  have input (inside : Input) (present : inside.inputKey.isSome ∧ inside.keySig.isSome) :
      inside.hashedForm true = inside := by
    obtain ⟨commit, sig, key, keySig⟩ := inside
    obtain ⟨some_key, some_sig⟩ := present
    obtain ⟨key, rfl⟩ := Option.isSome_iff_exists.mp some_key
    obtain ⟨keySig, rfl⟩ := Option.isSome_iff_exists.mp some_sig
    rfl
  have kernel (inside : TxKernel)
      (present : inside.stealthExcess.isSome ∧ inside.stealthSig.isSome) :
      inside.hashedForm true = inside := by
    obtain ⟨feature, fee, reward, lock, excess, sig, stealth, stealthSig⟩ := inside
    obtain ⟨some_stealth, some_sig⟩ := present
    obtain ⟨stealth, rfl⟩ := Option.isSome_iff_exists.mp some_stealth
    obtain ⟨stealthSig, rfl⟩ := Option.isSome_iff_exists.mp some_sig
    rfl
  have inputs := List.map_congr_left fun inside member =>
    input inside (keyed.inputs inside member)
  have kernels := List.map_congr_left fun inside member =>
    kernel inside (keyed.kernels inside member)
  rw [List.map_id'] at inputs kernels
  simp only [hashedForm, spellOffsets, inputs, kernels, if_true]

/-- Writing the offsets out does not change the hash of a keyed body. -/
theorem Keyed.hash_eq {body : BlockBody} (keyed : body.Keyed) (nonempty : body.kernels ≠ []) :
    body.hash P = hashMulti P Domain.txbodyBound (body.spellOffsets.hashParts P true) := by
  rw [BlockBody.hash_eq, keyed.hasAnyBinding nonempty]
  rfl

/-- Of an unbound form only the shape without binding fields is left. -/
theorem stripBinding_of_hashedForm_eq {bound : Bool} {left right : BlockBody}
    (same : left.hashedForm bound = right.hashedForm bound) :
    left.stripBinding = right.stripBinding := by
  have input (inside : Input) :
      (inside.hashedForm bound).stripBinding = inside.stripBinding := by
    cases bound <;> rfl
  have kernel (inside : TxKernel) :
      (inside.hashedForm bound).stripBinding = inside.stripBinding := by
    cases bound <;> rfl
  have stripped (body : BlockBody) : (body.hashedForm bound).stripBinding = body.stripBinding := by
    simp only [hashedForm, stripBinding, List.map_map, Function.comp_def, input, kernel]
  rw [← stripped left, ← stripped right, same]

end BlockBody

/-! ## Sample bodies -/

namespace Sample

/-- The sample instance with a verifier that looks at the length of the proof. -/
def measured : Primitives :=
  { primitives with rangeVerify := fun proof _ _ => proof.length == rangeProofLength }

theorem measured_fixed : measured.FixedProofLength := by
  intro proof commit ctx verified
  exact beq_iff_eq.mp verified

/-- The first ledger of a network on which the fork is at genesis. -/
def boundLedger : LedgerState measured :=
  LedgerState.forNetwork measured .testnet

/-- A coinbase body with every binding field and this kernel offset. -/
def boundBody (kernelOffset : Option Bytes32) : BlockBody where
  inputs := []
  outputs := [{ outputOf .coinbase (commitTo 600000000 1) with
    rangeProof := List.replicate rangeProofLength 0 }]
  kernels := [{ kernelOf .coinbase 600000000 0 1 with
    stealthExcess := some 0
    stealthSig := some ⟨0, 0⟩ }]
  stealthOffset := none
  kernelOffset := kernelOffset

end Sample

/-! ## Accepted bodies -/

namespace LedgerState

variable {state : LedgerState P} {body : BlockBody} {height expectedReward : UInt64} {ctx : Bytes}

/-- An accepted body is valid in the shape in which it is judged. -/
theorem valid_of_applyBlock
    (accepted : (state.applyBlock body height expectedReward ctx).1 = .ok ()) :
    ∃ coinbase offset staged,
      Valid state (state.visibleBody body height) height expectedReward ctx coinbase offset
        staged := by
  unfold applyBlock at accepted
  simp only at accepted
  split at accepted
  next => contradiction
  next staged validated =>
      obtain ⟨coinbase, offset, valid⟩ := validate_eq_ok.mp validated
      exact ⟨coinbase, offset, staged, valid⟩

theorem readable_of_accepted
    (accepted : (state.applyBlock body height expectedReward ctx).1 = .ok ())
    (fixed : P.FixedProofLength) (inMemory : body.InMemory) : body.Readable := by
  obtain ⟨coinbase, offset, staged, valid⟩ := valid_of_applyBlock accepted
  have outputs : (state.visibleBody body height).outputs = body.outputs := by
    unfold visibleBody
    split <;> rfl
  have size : (state.visibleBody body height).exceedsSizeLimits = body.exceedsSizeLimits := by
    unfold visibleBody
    split
    · simp [BlockBody.exceedsSizeLimits, BlockBody.stripBinding]
    · rfl
  refine ⟨outputs ▸ valid.outputs_ne, size ▸ valid.size, ?_, inMemory⟩
  intro output inside
  have checked := valid.outputs output (outputs ▸ inside)
  simp only [checkOutput, Guard.bind_eq_ok, Guard.refuse_eq_ok, not_not] at checked
  obtain ⟨_, _, _, proven, _⟩ := checked
  exact fixed _ _ _ proven

/-- From the fork on an accepted body carries every binding field. -/
theorem keyed_of_accepted
    (accepted : (state.applyBlock body height expectedReward ctx).1 = .ok ())
    (active : state.bindingActive height = true) : body.Keyed ∧ body.kernels ≠ [] := by
  obtain ⟨coinbase, offset, staged, valid⟩ := valid_of_applyBlock accepted
  have visible : state.visibleBody body height = body := by
    simp [visibleBody, active]
  rw [visible] at valid
  have keys := valid.keys active
  simp only [keyBalance, Guard.bind_eq_ok, Guard.total_eq_ok] at keys
  obtain ⟨_, _, _, _, _, _, _, ⟨verified, _⟩, _⟩ := keys
  refine ⟨⟨?_, ?_⟩, valid.kernels_ne⟩
  · intro input inside
    obtain ⟨_, _, _, _, keyed⟩ := checkInput_eq_ok.mp (valid.inputs input inside)
    have signed := keyed active
    unfold Transaction.verifyInputKey at signed
    cases key : input.inputKey <;> cases sig : input.keySig <;> simp [key, sig] at signed ⊢
  · intro kernel inside
    have point := verified kernel inside
    unfold stealthExcessPoint TxKernel.verifiedStealthExcess at point
    cases excess : kernel.stealthExcess <;> cases sig : kernel.stealthSig <;>
      simp [excess, sig, Guard.need, Except.isOk, Except.toBool] at point ⊢

/-- From the fork on two accepted bodies with one hash are the same body, except when they
differ in that an offset is absent in one and written as zeros in the other; then they always
share their hash.  Below the fork they are the same body without binding fields. -/
theorem hash_binds_body_iff {left right : BlockBody} {expectedReward' : UInt64} {ctx' : Bytes}
    (leftAccepted : (state.applyBlock left height expectedReward ctx).1 = .ok ())
    (rightAccepted : (state.applyBlock right height expectedReward' ctx').1 = .ok ())
    (collisionFree : P.CollisionFreeOn (left.hashPreimages P ++ right.hashPreimages P))
    (fixed : P.FixedProofLength) (leftInMemory : left.InMemory) (rightInMemory : right.InMemory) :
    (state.bindingActive height = true →
      ((left.hash P = right.hash P → left = right) ↔ ¬left.DifferInZeroOffset right)) ∧
    (state.bindingActive height = false →
      left.hash P = right.hash P → left.stripBinding = right.stripBinding) := by
  have leftReadable := readable_of_accepted leftAccepted fixed leftInMemory
  have rightReadable := readable_of_accepted rightAccepted fixed rightInMemory
  refine ⟨?_, ?_⟩
  · intro active
    obtain ⟨leftKeyed, leftNonempty⟩ := keyed_of_accepted leftAccepted active
    obtain ⟨rightKeyed, rightNonempty⟩ := keyed_of_accepted rightAccepted active
    constructor
    · intro binds ⟨differ, spelled⟩
      apply differ
      apply binds
      rw [leftKeyed.hash_eq leftNonempty, rightKeyed.hash_eq rightNonempty, spelled]
    · intro alike same
      by_contra differ
      have forms := (leftReadable.hashedForm_eq rightReadable collisionFree same).2
      rw [leftKeyed.hasAnyBinding leftNonempty, leftKeyed.hashedForm_eq,
        rightKeyed.hashedForm_eq] at forms
      exact alike ⟨differ, forms⟩
  · intro _ same
    exact BlockBody.stripBinding_of_hashedForm_eq
      (leftReadable.hashedForm_eq rightReadable collisionFree same).2

open Sample in
/-- The hypotheses hold of a body without a kernel offset and the same body with a zero one. -/
theorem hash_binds_body_iff_zero :
    ((boundBody none).hash measured = (boundBody (some 0)).hash measured →
      boundBody none = boundBody (some 0)) ↔
        ¬(boundBody none).DifferInZeroOffset (boundBody (some 0)) := by
  have absent : (boundLedger.applyBlock (boundBody none) 0 600000000 []).1 = .ok () := by
    decide +kernel
  have zero : (boundLedger.applyBlock (boundBody (some 0)) 0 600000000 []).1 = .ok () := by
    decide +kernel
  have inMemory (offset : Option Bytes32) : (boundBody offset).InMemory := by
    simp [BlockBody.InMemory, boundBody, outputOf]
  exact (hash_binds_body_iff absent zero (by decide +kernel) measured_fixed (inMemory _)
    (inMemory _)).1 (by decide +kernel)

open Sample in
/-- A body without a kernel offset and the same body with a zero one are both accepted and
have one hash. -/
theorem hash_binds_body_counterexample :
    measured.FixedProofLength ∧
      measured.CollisionFreeOn
        ((boundBody none).hashPreimages measured ++ (boundBody (some 0)).hashPreimages measured) ∧
      boundLedger.bindingActive 0 = true ∧
      (boundLedger.applyBlock (boundBody none) 0 600000000 []).1 = .ok () ∧
      (boundLedger.applyBlock (boundBody (some 0)) 0 600000000 []).1 = .ok () ∧
      (boundBody none).hash measured = (boundBody (some 0)).hash measured ∧
      boundBody none ≠ boundBody (some 0) := by
  refine ⟨measured_fixed, ?_, ?_, ?_, ?_, ?_, ?_⟩ <;> decide +kernel

end LedgerState

end Nightfall
