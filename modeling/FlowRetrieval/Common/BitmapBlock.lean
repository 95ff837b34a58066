/-
# The block of a generated bitmap

`Generate` allocates `width * height` bytes and `SetBit` and `GetBit` find a bit at
`row * width + (col >> 3)`, both computed in 32 bits. Neither number is bounded by the code.

## Main results

* `Bitmap.sound_iff_of_generate` — the bits of a generated bitmap are inside its block, apart
  from each other and as generated exactly when the size of the block does not wrap around
-/
import FlowRetrieval.Common.Bitmap

namespace FlowRetrieval

namespace Bitmap

/-- The byte at which `SetBit` and `GetBit` find a bit. -/
def byteIndex (b : Bitmap) (row col : UInt32) : ℕ := (row * b.width + (col >>> 3)).toNat

theorem data_setBit (b : Bitmap) (row col : UInt32) :
    (b.setBit row col).data = b.data.set (b.byteIndex row col)
      (b.data.getD (b.byteIndex row col) 0 ||| 1 <<< UInt8.ofNat (7 - (col &&& 7).toNat)) := rfl

theorem getBit_eq_getD (b : Bitmap) (row col : UInt32) :
    b.getBit row col =
      b.data.getD (b.byteIndex row col) 0 >>> UInt8.ofNat (7 - (col &&& 7).toNat) &&& 1 := rfl

theorem byteIndex_toNat (b : Bitmap) (row col : UInt32) :
    b.byteIndex row col = (row.toNat * b.width.toNat + col.toNat / 8) % 2 ^ 32 := by
  rw [byteIndex, UInt32.toNat_add, UInt32.toNat_mul, toNat_shiftRight_three, Nat.mod_add_mod]

theorem length_data (b : Bitmap) :
    b.data.length = b.width.toNat * b.height.toNat % 2 ^ 32 := by
  rw [b.allocated, UInt32.toNat_mul]

/-- The bits of the rows and columns of `b` are in its block, in bytes of their own, and are
those of `cols`. -/
structure Sound (b : Bitmap) (cols : List (List UInt32)) : Prop where
  inside : ∀ row col, row < b.height → col < b.size → b.byteIndex row col < b.data.length
  apart : ∀ row col row' col', row < b.height → col < b.size → row' < b.height → col' < b.size →
    b.byteIndex row col = b.byteIndex row' col' → row = row' ∧ col >>> 3 = col' >>> 3
  bits : ∀ row col, row < b.height → col < b.size →
    (b.getBit row col = 1 ↔ row ∈ cols.getD col.toNat [])

section Generate

variable {b : Bitmap} {cols : List (List UInt32)} {height : UInt32}
  (done : generate cols height = some b)

include done

/-- Rows have room for all columns. -/
theorem col_lt_of_generate {col : UInt32} (inside : col < b.size) :
    col.toNat < 8 * b.width.toNat := by
  have padded := width_of_generate done
  have := UInt32.lt_iff_toNat_lt.mp inside
  omega

theorem sound_of_generate (noWrap : b.width.toNat * b.height.toNat < 2 ^ 32) :
    b.Sound cols := by
  constructor
  · intro row col rowInside colInside
    obtain ⟨index, -, within⟩ := bitIndex rowInside (col_lt_of_generate done colInside) noWrap
    rw [byteIndex, index]
    exact within
  · intro row col row' col' rowInside colInside rowInside' colInside' same
    have room := col_lt_of_generate done colInside
    have room' := col_lt_of_generate done colInside'
    rw [byteIndex, byteIndex, (bitIndex rowInside room noWrap).1,
      (bitIndex rowInside' room' noWrap).1, Nat.mul_add_div (by norm_num),
      Nat.mul_add_div (by norm_num)] at same
    -- row and byte of the row are the quotient and the remainder by the width
    have rows := congrArg (· / b.width.toNat) same
    have bytes := congrArg (· % b.width.toNat) same
    simp only [Nat.mul_add_mod', Nat.mod_eq_of_lt (Nat.div_lt_of_lt_mul room),
      Nat.mod_eq_of_lt (Nat.div_lt_of_lt_mul room')] at bytes
    rw [Nat.mul_comm row.toNat, Nat.mul_comm row'.toNat] at rows
    simp only [Nat.mul_add_div (by omega : 0 < b.width.toNat),
      Nat.div_eq_of_lt (Nat.div_lt_of_lt_mul room),
      Nat.div_eq_of_lt (Nat.div_lt_of_lt_mul room'), Nat.add_zero] at rows
    refine ⟨UInt32.toNat_inj.mp rows, ?_⟩
    rw [← UInt32.toNat_inj, toNat_shiftRight_three, toNat_shiftRight_three, bytes]
  · intro row col rowInside colInside
    have room := col_lt_of_generate done colInside
    rw [getBit_eq rowInside room noWrap, cell_of_generate done rowInside room noWrap]
    by_cases member : row ∈ cols.getD col.toNat []
    · simp only [member, decide_true, if_true]
    · simp only [member, decide_false]
      decide

omit done in
/-- The first row that begins at `2 ^ 32` or behind begins before the end of one row there. -/
private theorem exists_row_behind {width count : ℕ} (positive : 0 < width)
    (wrap : 2 ^ 32 ≤ count * width) :
    ∃ row ≤ count, 2 ^ 32 ≤ row * width ∧ row * width < 2 ^ 32 + width := by
  refine ⟨(2 ^ 32 - 1) / width + 1, ?_, ?_, ?_⟩
  · apply Nat.succ_le_of_lt
    rw [Nat.div_lt_iff_lt_mul positive]
    omega
  · have := Nat.lt_div_mul_add (a := 2 ^ 32 - 1) positive
    rw [Nat.add_mul, Nat.one_mul]
    omega
  · have := Nat.div_mul_le_self (2 ^ 32 - 1) width
    rw [Nat.add_mul, Nat.one_mul]
    omega

/-- A block whose size wraps around ends before its last row, or two of its rows share a
byte. -/
theorem not_sound_of_wrap (wrap : 2 ^ 32 ≤ b.width.toNat * b.height.toNat) : ¬ b.Sound cols := by
  intro sound
  have padded := width_of_generate done
  have columns := b.size.toNat_lt
  have someColumn : 0 < b.width.toNat := by
    by_contra none
    rw [Nat.eq_zero_of_not_pos none, Nat.zero_mul] at wrap
    omega
  have column : (0 : UInt32) < b.size :=
    UInt32.lt_iff_toNat_lt.mpr (by rw [UInt32.toNat_zero]; omega)
  obtain ⟨row, within, reaches, barely⟩ :=
    exists_row_behind someColumn (by rwa [Nat.mul_comm])
  -- every row number is one of 32 bits
  have number {r : ℕ} (below : r < b.height.toNat) :
      (UInt32.ofNat r).toNat = r ∧ UInt32.ofNat r < b.height := by
    have same : (UInt32.ofNat r).toNat = r :=
      UInt32.toNat_ofNat_of_lt' (below.trans b.height.toNat_lt)
    exact ⟨same, UInt32.lt_iff_toNat_lt.mpr (by rwa [same])⟩
  rcases Nat.lt_or_ge row b.height.toNat with before | last
  · -- row `row` begins at a byte of row zero
    obtain ⟨rowNumber, rowInside⟩ := number before
    obtain ⟨zeroNumber, zeroInside⟩ := number (r := 0) (by omega)
    have byte : 8 * (row * b.width.toNat - 2 ^ 32) < b.size.toNat := by
      have whole : 8 ∣ row * b.width.toNat := Dvd.dvd.mul_left ⟨_, padded⟩ row
      omega
    have colNumber : (UInt32.ofNat (8 * (row * b.width.toNat - 2 ^ 32))).toNat =
        8 * (row * b.width.toNat - 2 ^ 32) := UInt32.toNat_ofNat_of_lt' (byte.trans columns)
    have shared : b.byteIndex (UInt32.ofNat row) 0 =
        b.byteIndex (UInt32.ofNat 0) (UInt32.ofNat (8 * (row * b.width.toNat - 2 ^ 32))) := by
      rw [byteIndex_toNat, byteIndex_toNat, rowNumber, zeroNumber, colNumber, UInt32.toNat_zero]
      omega
    have rows := (sound.apart _ _ _ _ rowInside column zeroInside
      (UInt32.lt_iff_toNat_lt.mpr (by rwa [colNumber])) shared).1
    have := congrArg UInt32.toNat rows
    rw [rowNumber, zeroNumber] at this
    rw [this, Nat.zero_mul] at reaches
    omega
  · -- all rows but the last end below `2 ^ 32`, and the block ends before the last one
    obtain rfl : row = b.height.toNat := le_antisymm within last
    have some : 0 < b.height.toNat := by
      by_contra none
      rw [Nat.eq_zero_of_not_pos none, Nat.zero_mul] at reaches
      omega
    obtain ⟨rowNumber, rowInside⟩ := number (r := b.height.toNat - 1) (by omega)
    have inside := sound.inside _ _ rowInside column
    rw [byteIndex_toNat, length_data, rowNumber, UInt32.toNat_zero, Nat.sub_mul, Nat.one_mul,
      Nat.mul_comm b.width.toNat] at inside
    omega

/-- The bits of a generated bitmap are where they belong exactly when the size of its block
does not wrap around. -/
theorem sound_iff_of_generate :
    b.Sound cols ↔ 8 * ((cols.length + 63) / 64) * height.toNat < 2 ^ 32 := by
  rw [← size_of_generate done, ← width_of_generate done, ← height_of_generate done]
  constructor
  · intro sound
    by_contra wrap
    exact not_sound_of_wrap done (Nat.not_lt.mp wrap) sound
  · exact sound_of_generate done

end Generate

/-- A column and two rows take two rows of eight bytes. -/
theorem sound_oneColumn : ∃ b, generate [[1]] 2 = some b ∧ b.Sound [[1]] := by
  have accepted : (generate [[1]] 2).isSome := isSome_generate_iff.mpr (by simp)
  obtain ⟨b, done⟩ := Option.isSome_iff_exists.mp accepted
  exact ⟨b, done, (sound_iff_of_generate done).mpr (by simp)⟩

/-- With `2 ^ 29` rows the block of a single column is empty. -/
theorem not_sound_tall : ∃ b, generate [[0]] 536870912 = some b ∧ b.data = [] ∧
    ¬ b.Sound [[0]] := by
  have accepted : (generate [[0]] 536870912).isSome := isSome_generate_iff.mpr (by simp)
  obtain ⟨b, done⟩ := Option.isSome_iff_exists.mp accepted
  have width : b.width.toNat = 8 := by
    rw [width_of_generate done, size_of_generate done]
    rfl
  have height : b.height.toNat = 536870912 := by
    rw [height_of_generate done]
    rfl
  refine ⟨b, done, ?_, not_sound_of_wrap done (by rw [width, height]; norm_num)⟩
  rw [← List.length_eq_zero_iff, length_data, width, height]
  norm_num

end Bitmap

end FlowRetrieval
