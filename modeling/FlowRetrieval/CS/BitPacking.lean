/-
# Bit packing in byte memories

A byte memory `ℕ → UInt8` is read as one long bit string in which the most
significant bit of a byte comes first: position `p` is bit `7 - p % 8` of byte
`p / 8`. Setting a position changes that position and no other. Byte-wise `and`
and `or` act position by position, and scanning every byte of a block from its
lowest bit enumerates each set position of the block once.
-/
import Mathlib.Data.Finset.Card
import Mathlib.Data.Finset.Range
import Mathlib.Data.List.Nodup
import Mathlib.Data.List.Range
import Mathlib.Logic.Function.Basic
import Mathlib.Tactic.IntervalCases

namespace CS.BitPacking

/-- Bit `j` of a byte, the least significant bit being bit `0`. -/
def bitOf (byte : UInt8) (j : ℕ) : Bool := byte.toNat.testBit j

@[simp] theorem bitOf_zero (j : ℕ) : bitOf 0 j = false := by simp [bitOf]

@[simp] theorem bitOf_or (x y : UInt8) (j : ℕ) :
    bitOf (x ||| y) j = (bitOf x j || bitOf y j) := by
  simp [bitOf, UInt8.toNat_or, Nat.testBit_or]

@[simp] theorem bitOf_and (x y : UInt8) (j : ℕ) :
    bitOf (x &&& y) j = (bitOf x j && bitOf y j) := by
  simp [bitOf, UInt8.toNat_and, Nat.testBit_and]

theorem bitOf_ff {j : ℕ} (small : j < 8) : bitOf 0xff j = true := by
  interval_cases j <;> decide

theorem bitOf_one_shiftLeft {k j : ℕ} (hk : k < 8) (hj : j < 8) :
    bitOf (1 <<< UInt8.ofNat k) j = decide (j = k) := by
  interval_cases k <;> interval_cases j <;> decide

/-- Shifting a bit to the lowest place and masking it reads the bit. -/
theorem shiftRight_and_one (byte : UInt8) {j : ℕ} (small : j < 8) :
    byte >>> UInt8.ofNat j &&& 1 = if bitOf byte j then 1 else 0 := by
  have shift : (UInt8.ofNat j).toNat % 8 = j := by
    rw [UInt8.toNat_ofNat']
    omega
  rw [← UInt8.toNat_inj, UInt8.toNat_and, UInt8.toNat_shiftRight, shift, UInt8.toNat_one,
    Nat.and_one_is_mod, bitOf, Nat.testBit_eq_decide_div_mod_eq, Nat.shiftRight_eq_div_pow]
  by_cases odd : byte.toNat / 2 ^ j % 2 = 1
  · simp [odd]
  · simp [Nat.mod_two_ne_one.mp odd]

/-- Position `p` of a byte memory, most significant bit first. -/
def bitAt (memory : ℕ → UInt8) (p : ℕ) : Bool := bitOf (memory (p / 8)) (7 - p % 8)

theorem bitAt_congr {first second : ℕ → UInt8} {p : ℕ}
    (same : first (p / 8) = second (p / 8)) : bitAt first p = bitAt second p := by
  rw [bitAt, bitAt, same]

/-- Setting a position adds exactly that position. -/
theorem bitAt_setBit (memory : ℕ → UInt8) (p q : ℕ) :
    bitAt (Function.update memory (p / 8) (memory (p / 8) ||| 1 <<< UInt8.ofNat (7 - p % 8))) q =
      (decide (q = p) || bitAt memory q) := by
  unfold bitAt
  -- another byte is not written, and no position in it is `p`
  by_cases sameByte : q / 8 = p / 8
  · rw [sameByte, Function.update_self, bitOf_or,
      bitOf_one_shiftLeft (by omega) (by omega), Bool.or_comm]
    congr 1
    exact decide_eq_decide.mpr (by omega)
  · have different : q ≠ p := fun same => sameByte (congrArg (· / 8) same)
    rw [Function.update_of_ne sameByte, decide_eq_false different, Bool.false_or]

theorem bitOf_not {byte : UInt8} {j : ℕ} (small : j < 8) : bitOf (~~~byte) j = !bitOf byte j := by
  have asBits (x : UInt8) : bitOf x j = x.toBitVec.getLsbD j := (BitVec.testBit_toNat x.toBitVec)
  rw [asBits, asBits, UInt8.toBitVec_not, BitVec.getLsbD_not, decide_eq_true small, Bool.true_and]

/-- A byte is determined by its bits. -/
theorem eq_of_bitOf {x y : UInt8} (same : ∀ j < 8, bitOf x j = bitOf y j) : x = y := by
  have table : ∀ j, x.toNat.testBit j = y.toNat.testBit j := by
    intro j
    rcases Nat.lt_or_ge j 8 with low | high
    · exact same j low
    -- a byte has no bits above
    · have small (z : UInt8) : z.toNat < 2 ^ j :=
        z.toNat_lt.trans_le (Nat.pow_le_pow_right (by norm_num) high)
      rw [Nat.testBit_lt_two_pow (small x), Nat.testBit_lt_two_pow (small y)]
  exact UInt8.toNat_inj.mp (Nat.eq_of_testBit_eq table)

/-- Bytes with the same positions are the same. -/
theorem eq_of_bitAt {first second : ℕ → UInt8} {count : ℕ}
    (same : ∀ p < 8 * count, bitAt first p = bitAt second p) : ∀ i < count, first i = second i := by
  refine fun i hi => eq_of_bitOf fun j hj => ?_
  have position := same (8 * i + (7 - j)) (by omega)
  have byteIndex : (8 * i + (7 - j)) / 8 = i := by omega
  have bitIndex : 7 - (8 * i + (7 - j)) % 8 = j := by omega
  simpa only [bitAt, byteIndex, bitIndex] using position

/-- Clear a position. -/
def clearBit (memory : ℕ → UInt8) (p : ℕ) : ℕ → UInt8 :=
  Function.update memory (p / 8) (memory (p / 8) &&& ~~~(1 <<< UInt8.ofNat (7 - p % 8)))

/-- Clearing a position removes exactly that position. -/
theorem bitAt_clearBit (memory : ℕ → UInt8) (p q : ℕ) :
    bitAt (clearBit memory p) q = (decide (q ≠ p) && bitAt memory q) := by
  unfold bitAt clearBit
  by_cases sameByte : q / 8 = p / 8
  · rw [sameByte, Function.update_self, bitOf_and, bitOf_not (by omega),
      bitOf_one_shiftLeft (by omega) (by omega), Bool.and_comm, ← decide_not]
    congr 1
    exact decide_eq_decide.mpr (by omega)
  · have different : q ≠ p := fun same => sameByte (congrArg (· / 8) same)
    rw [Function.update_of_ne sameByte, decide_eq_true different, Bool.true_and]

/-- The set bits of a byte, in ascending order. -/
def bitsOf (byte : UInt8) : List ℕ := (List.range 8).filter (bitOf byte)

theorem mem_bitsOf {byte : UInt8} {j : ℕ} :
    j ∈ bitsOf byte ↔ j < 8 ∧ bitOf byte j = true := by
  rw [bitsOf, List.mem_filter, List.mem_range]

theorem bitsOf_nodup (byte : UInt8) : (bitsOf byte).Nodup := List.nodup_range.filter _

section Positions

/-- The set positions of the first `count` bytes: byte by byte, and within a
byte from its least significant bit. -/
def positions (count : ℕ) (memory : ℕ → UInt8) : List ℕ :=
  (List.range count).flatMap fun i => (bitsOf (memory i)).map fun j => i * 8 + 7 - j

theorem mem_positions {count : ℕ} {memory : ℕ → UInt8} {p : ℕ} :
    p ∈ positions count memory ↔ p < count * 8 ∧ bitAt memory p = true := by
  simp only [positions, List.mem_flatMap, List.mem_range, List.mem_map, mem_bitsOf, bitAt]
  constructor
  -- byte `i` owns the positions `8 * i` to `8 * i + 7`, bit `j` the one `j` before its last
  · rintro ⟨i, hi, j, ⟨hj, set⟩, rfl⟩
    have byteIndex : (i * 8 + 7 - j) / 8 = i := by omega
    have bitIndex : 7 - (i * 8 + 7 - j) % 8 = j := by omega
    rw [byteIndex, bitIndex]
    exact ⟨by omega, set⟩
  · rintro ⟨inside, set⟩
    exact ⟨p / 8, by omega, 7 - p % 8, ⟨by omega, set⟩, by omega⟩

/-- No position is listed twice. -/
theorem positions_nodup (count : ℕ) (memory : ℕ → UInt8) : (positions count memory).Nodup := by
  refine List.nodup_flatMap.mpr ⟨?_, ?_⟩
  -- within one byte
  · intro i _
    apply (bitsOf_nodup (memory i)).map_on
    intro j hj k hk same
    have := (mem_bitsOf.mp hj).1
    have := (mem_bitsOf.mp hk).1
    omega
  -- two bytes own disjoint ranges of positions
  · refine List.Pairwise.imp ?_ List.nodup_range
    intro i k different p hi hk
    simp only [List.mem_map, mem_bitsOf] at hi hk
    obtain ⟨j, ⟨hj, -⟩, rfl⟩ := hi
    obtain ⟨l, ⟨hl, -⟩, same⟩ := hk
    omega

/-- As many positions are listed as are set. -/
theorem length_positions (count : ℕ) (memory : ℕ → UInt8) :
    (positions count memory).length =
      ((Finset.range (8 * count)).filter fun p => bitAt memory p = true).card := by
  rw [← List.toFinset_card_of_nodup (positions_nodup count memory)]
  congr 1
  ext p
  rw [List.mem_toFinset, mem_positions, Finset.mem_filter, Finset.mem_range, Nat.mul_comm]

/-- Clearing a listed position takes it from the list. -/
theorem positions_perm_cons_clearBit {count : ℕ} {memory : ℕ → UInt8} {p : ℕ}
    (member : p ∈ positions count memory) :
    (positions count memory).Perm (p :: positions count (clearBit memory p)) := by
  have fresh : p ∉ positions count (clearBit memory p) := by
    rw [mem_positions, bitAt_clearBit]
    simp
  refine (List.perm_ext_iff_of_nodup (positions_nodup _ _)
    ((positions_nodup _ _).cons fresh)).mpr fun q => ?_
  rw [mem_positions] at member
  rw [List.mem_cons, mem_positions, mem_positions, bitAt_clearBit]
  -- the cleared position is listed, and any other one as before
  rcases eq_or_ne q p with rfl | different
  · simp [member]
  · simp [different]

theorem positions_congr {count : ℕ} {first second : ℕ → UInt8}
    (same : ∀ i < count, first i = second i) :
    positions count first = positions count second := by
  apply List.flatMap_congr
  intro i hi
  rw [same i (List.mem_range.mp hi)]

end Positions

end CS.BitPacking
