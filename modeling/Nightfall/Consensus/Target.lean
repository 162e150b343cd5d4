import Nightfall.Consensus.Block
import Nightfall.Library.Limbs

/-!
# The proof-of-work target

`meetsDifficulty` multiplies the hash with the difficulty limb by limb and looks at what is
carried out.  `meets_difficulty_exact` says what it decides.
-/

namespace Nightfall

/-- The bytes read as one number, the first byte the highest. -/
def bigEndian (bytes : Bytes) : Nat :=
  bytes.foldl (fun total byte => 256 * total + byte.toNat) 0

/-- The bytes of a number, the highest first. -/
theorem bigEndian_shifts (number count : Nat) :
    bigEndian ((List.range count).map fun index =>
      UInt8.ofNat (number >>> (8 * (count - 1 - index)))) = number % 256 ^ count := by
  have leading (taken : Nat) (inside : taken ≤ count) :
      bigEndian ((List.range taken).map fun index =>
        UInt8.ofNat (number >>> (8 * (count - 1 - index)))) =
          number % 256 ^ count / 256 ^ (count - taken) := by
    induction taken with
    | zero =>
        rw [Nat.sub_zero, Nat.div_eq_of_lt (Nat.mod_lt _ (by positivity))]
        rfl
    | succ taken ih =>
        have deeper : count - taken = count - (taken + 1) + 1 := by omega
        have place : count - 1 - taken = count - (taken + 1) := by omega
        have byte : (UInt8.ofNat (number >>> (8 * (count - (taken + 1))))).toNat =
            number % 256 ^ count / 256 ^ (count - (taken + 1)) % 256 := by
          have split : 256 ^ count = 256 ^ (count - (taken + 1)) * 256 ^ (taken + 1) := by
            rw [← pow_add]
            congr 1
            omega
          rw [UInt8.toNat_ofNat', Nat.shiftRight_eq_div_pow, pow_mul, split, Nat.mod_mul,
            Nat.add_mul_div_left _ _ (by positivity), Nat.div_eq_of_lt (Nat.mod_lt _ (by positivity)),
            Nat.zero_add, pow_succ' 256 taken, Nat.mod_mul_right_mod]
          rfl
        rw [bigEndian, List.range_succ, List.map_append, List.foldl_append, ← bigEndian,
          ih (by omega), List.map_cons, List.map_nil, List.foldl_cons, List.foldl_nil, place, byte,
          deeper, pow_succ, ← Nat.div_div_eq_div_mul]
        exact Nat.div_add_mod _ 256
  have whole := leading count le_rfl
  rwa [Nat.sub_self, pow_zero, Nat.div_one] at whole

theorem bigEndian_toBytes (hash : Hash256) : bigEndian hash.toBytes = hash.toNat := by
  have bounded : hash.toNat < 256 ^ 32 := hash.isLt
  rw [Bytes32.toBytes, bigEndian_shifts hash.toNat 32, Nat.mod_eq_of_lt bounded]

/-- A limb is made of eight bytes of the hash, the lowest limb of the last eight. -/
theorem hashLimbs_eq_bytes (hash : Hash256) :
    hashLimbs hash = (List.range 4).map fun index =>
      bigEndian ((hash.toBytes.take (32 - index * 8)).drop (32 - index * 8 - 8)) := by
  apply List.map_congr_left
  intro index inside
  rw [List.mem_range] at inside
  have bytes : (hash.toBytes.take (32 - index * 8)).drop (32 - index * 8 - 8) =
      (List.range 8).map fun place =>
        UInt8.ofNat ((hash.toNat >>> (64 * index)) >>> (8 * (8 - 1 - place))) := by
    apply List.ext_getElem
    · simp only [List.length_drop, List.length_take, Bytes32.length_toBytes, List.length_map,
        List.length_range]
      omega
    · intro place _ small
      rw [List.length_map, List.length_range] at small
      simp only [Bytes32.toBytes, List.getElem_drop, List.getElem_take, List.getElem_map,
        List.getElem_range, ← Nat.shiftRight_add]
      congr 2
      omega
  rw [bytes, bigEndian_shifts]
  rfl

theorem value_hashLimbs (hash : Hash256) : Limbs.value (2 ^ 64) (hashLimbs hash) = hash.toNat := by
  have bounded : hash.toNat < (2 ^ 64) ^ 4 := hash.isLt
  have digits : hashLimbs hash =
      (List.range 4).map fun index => hash.toNat / (2 ^ 64) ^ index % 2 ^ 64 := by
    simp only [hashLimbs, Nat.shiftRight_eq_div_pow, pow_mul]
  rw [digits, Limbs.value_digits, Nat.mod_eq_of_lt bounded]

/-- No step of the product leaves the 128 bits in which it is formed. -/
theorem product_fits {limbs : List Nat} (bounded : ∀ limb ∈ limbs, limb < 2 ^ 64)
    {difficulty : UInt64} (positive : 0 < difficulty.toNat) {limb : Nat} (inside : limb < 2 ^ 64) :
    limb * difficulty.toNat + Limbs.carryOut (2 ^ 64) difficulty.toNat limbs 0 < 2 ^ 128 := by
  have carry : Limbs.carryOut (2 ^ 64) difficulty.toNat limbs 0 < difficulty.toNat :=
    Limbs.carryOut_lt bounded positive
  have factor := difficulty.toNat_lt
  calc limb * difficulty.toNat + Limbs.carryOut (2 ^ 64) difficulty.toNat limbs 0
      < limb * difficulty.toNat + difficulty.toNat := Nat.add_lt_add_left carry _
    _ = (limb + 1) * difficulty.toNat := by ring
    _ ≤ 2 ^ 64 * 2 ^ 64 := Nat.mul_le_mul inside factor.le
    _ = 2 ^ 128 := by norm_num

theorem meetsDifficulty_iff (hash : Hash256) (difficulty : UInt64) :
    meetsDifficulty hash difficulty = true ↔ hash.toNat * blockWork difficulty < 2 ^ 256 := by
  have bounded : hash.toNat < 2 ^ 256 := hash.isLt
  unfold meetsDifficulty blockWork
  split
  next none =>
      rw [none]
      simpa using bounded
  next some' =>
      have positive : 0 < difficulty.toNat := by
        rw [Nat.pos_iff_ne_zero]
        exact fun zero => some' (UInt64.toNat_inj.mp zero)
      have carried : (hashLimbs hash).foldl
          (fun carry limb => (limb * difficulty.toNat + carry) >>> 64) 0 =
            Limbs.carryOut (2 ^ 64) difficulty.toNat (hashLimbs hash) 0 := by
        simp only [Nat.shiftRight_eq_div_pow]
        rfl
      have whole : (2 ^ 64) ^ (hashLimbs hash).length = 2 ^ 256 := by
        rw [hashLimbs, List.length_map, List.length_range, ← pow_mul]
      rw [carried, beq_iff_eq, Limbs.carryOut_eq_zero_iff (by positivity), value_hashLimbs, whole,
        Nat.max_eq_left positive]

/-- A hash meets a difficulty exactly when its product with the work of the difficulty stays
below two to the 256: any hash meets 0 and 1, a hash that meets a difficulty meets every
lower one, and a block that is checked against its difficulty counts with that as its work. -/
theorem meets_difficulty_exact :
    (∀ (hash : Hash256) (difficulty : UInt64), meetsDifficulty hash difficulty = true ↔
      bigEndian hash.toBytes * max difficulty.toNat 1 < 2 ^ 256) ∧
    (∀ hash : Hash256, meetsDifficulty hash 0 = true ∧ meetsDifficulty hash 1 = true) ∧
    (∀ (hash : Hash256) (lower higher : UInt64), lower ≤ higher →
      meetsDifficulty hash higher = true → meetsDifficulty hash lower = true) ∧
    ∀ (P : Primitives) (params : PowParams) (block : Block),
      block.work = max block.header.difficulty.toNat 1 ∧
        (block.powIsValid P params = true ↔
          (block.header.powHash P params).toNat * block.work < 2 ^ 256) := by
  refine ⟨fun hash difficulty => ?_, fun hash => ⟨?_, ?_⟩, fun hash lower higher order met => ?_,
    fun P params block => ⟨rfl, meetsDifficulty_iff _ _⟩⟩
  · rw [bigEndian_toBytes]
    exact meetsDifficulty_iff hash difficulty
  · exact (meetsDifficulty_iff hash 0).mpr (by simpa [blockWork] using hash.isLt)
  · exact (meetsDifficulty_iff hash 1).mpr (by simpa [blockWork] using hash.isLt)
  · rw [meetsDifficulty_iff] at met ⊢
    have works : blockWork lower ≤ blockWork higher :=
      max_le_max_right 1 (UInt64.le_iff_toNat_le.mp order)
    exact (Nat.mul_le_mul_left _ works).trans_lt met

/-- A hash that meets 9 meets 5. -/
theorem meets_difficulty_lower : meetsDifficulty 0 5 = true :=
  meets_difficulty_exact.2.2.1 0 5 9 (by decide) (by decide)

end Nightfall
