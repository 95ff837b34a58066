/-
# Bitmaps on byte streams

`Bitmap::Load` and `Bitmap::Dump`. The reader accepts a short data block as long
as one byte of it is present; the bytes no read fills are shown as zeros.
-/
import FlowRetrieval.Common.Bitmap
import FlowRetrieval.CS.ByteCodec

namespace FlowRetrieval

open CS.ByteCodec

/-- What a `Dump` call does: the bytes it writes and the value it returns, a byte
count in 64-bit arithmetic or a negative error code. -/
structure Dumped where
  bytes : List UInt8
  code : Int64
  deriving DecidableEq, Repr

/-- A count below `2 ^ 63` is not negative. -/
theorem Dumped.not_neg_of_small {count : ℕ} (small : count < 2 ^ 63) :
    ¬ Int64.ofNat count < 0 := by
  rw [Int64.lt_iff_toInt_lt, Int64.toInt_ofNat_of_lt small, Int64.toInt_zero]
  omega

namespace Bitmap

/-- `Load`; every failure returns `1`. The header is one item of twelve bytes. -/
def load : Reader ℤ Bitmap := do
  let width ← readU32 1
  let size ← readU32 1
  let height ← readU32 1
  let got ← someBlock 1 (width * height).toNat
  -- `fread` returns a count and only a count of zero is an error
  let data := (got ++ List.replicate (width * height).toNat 0).take (width * height).toNat
  return ⟨⟨width, size, height⟩, data, by simp [data]⟩

/-- `Dump`. The returned count has a 64-bit product, the written block a 32-bit one. -/
def dump (b : Bitmap) : Dumped where
  bytes := u32Bytes b.width ++ u32Bytes b.size ++ u32Bytes b.height ++ b.data
  code := Int64.ofNat (12 + b.width.toNat * b.height.toNat)

/-- The rows are padded to whole 64-bit words. -/
def Padded (b : Bitmap) : Prop := b.width.toNat = 8 * ((b.size.toNat + 63) / 64)

/-- At least one row and one column, in a block whose size does not wrap around. -/
structure Occupied (b : Bitmap) : Prop where
  rows : 0 < b.height.toNat
  columns : 0 < b.size.toNat
  noWrap : b.width.toNat * b.height.toNat < 2 ^ 32

theorem Padded.le_width {b : Bitmap} (padded : b.Padded) (occupied : b.Occupied) :
    8 ≤ b.width.toNat := by
  have := occupied.columns
  rw [Padded] at padded
  omega

theorem Padded.data_ne_nil {b : Bitmap} (padded : b.Padded) (occupied : b.Occupied) :
    b.data ≠ [] := by
  have width := padded.le_width occupied
  -- the block has at least one row of at least eight bytes
  rw [← List.length_pos_iff, b.allocated, UInt32.toNat_mul, Nat.mod_eq_of_lt occupied.noWrap]
  exact Nat.mul_pos (by omega) occupied.rows

/-- A bitmap without data is never read back: `fread` returns zero for a block of no bytes. -/
theorem load_error_of_empty (b : Bitmap) (empty : (b.width * b.height).toNat = 0)
    (rest : List UInt8) : load.run (b.dump.bytes ++ rest) = .error 1 := by
  simp only [dump, List.append_assoc]
  -- the header is read, and the product of its numbers is zero
  refine (decodes_readU32 1 b.width).run_bind_error ((decodes_readU32 1 b.size).run_bind_error
    ((decodes_readU32 1 b.height).run_bind_error (run_bind_error _ ?_)))
  rw [empty]
  rfl

theorem rows_of_data_ne_nil {b : Bitmap} (nonempty : b.data ≠ []) : 0 < b.height.toNat := by
  by_contra none
  apply nonempty
  rw [← List.length_eq_zero_iff, b.allocated, UInt32.toNat_mul, Nat.eq_zero_of_not_pos none,
    Nat.mul_zero, Nat.zero_mod]

/-- A bitmap with at least one byte of data is read back from its dump. -/
theorem decodes_load (b : Bitmap) (nonempty : b.data ≠ []) :
    Decodes load b.dump.bytes b := by
  have block : Decodes (someBlock (1 : ℤ) (b.width * b.height).toNat) b.data b.data := by
    rw [← b.allocated]
    exact decodes_someBlock 1 nonempty
  have value : (b.data ++ List.replicate (b.width * b.height).toNat 0).take
      (b.width * b.height).toNat = b.data := by
    rw [← b.allocated, List.take_left]
  simp only [dump, List.append_assoc]
  refine (decodes_readU32 1 b.width).bind ((decodes_readU32 1 b.size).bind
    ((decodes_readU32 1 b.height).bind ?_))
  have read := block.bind_pure fun got =>
    (⟨⟨b.width, b.size, b.height⟩,
      (got ++ List.replicate (b.width * b.height).toNat 0).take (b.width * b.height).toNat,
      by simp⟩ : Bitmap)
  simpa only [value] using read

/-- A truncated dump is accepted when the cut is in the data: the height is the original one,
and nothing is left to read. -/
theorem cut_load (b : Bitmap) :
    Cut load b.dump.bytes fun got => got.height = b.height ∧ b.data ≠ [] := by
  have block : Cut (someBlock (1 : ℤ) (b.width * b.height).toNat) b.data fun _ => b.data ≠ [] := by
    rw [← b.allocated]
    exact cut_someBlock 1 b.data
  simp only [dump, List.append_assoc]
  refine (rejects_readU32 1 b.width).bind (decodes_readU32 1 b.width)
    ((rejects_readU32 1 b.size).bind (decodes_readU32 1 b.size)
      ((rejects_readU32 1 b.height).bind (decodes_readU32 1 b.height) ?_))
  exact block.bind_pure fun got some => ⟨rfl, some⟩

/-- A bitmap without data is not read, be it truncated or not. -/
theorem fails_load_of_empty {b : Bitmap} (empty : b.data = []) (more : List UInt8) (k : ℕ) :
    Fails load ((b.dump.bytes ++ more).take k) := by
  have zero : (b.width * b.height).toNat = 0 := by
    rw [← b.allocated, empty]
    rfl
  intro got left loaded
  rw [List.take_append] at loaded
  rcases Nat.lt_or_ge k b.dump.bytes.length with before | behind
  · rw [Nat.sub_eq_zero_of_le before.le, List.take_zero, List.append_nil] at loaded
    exact (b.cut_load k before got left loaded).2.2 empty
  · rw [List.take_of_length_le behind, b.load_error_of_empty zero] at loaded
    cases loaded

theorem code_dump_nonneg (b : Bitmap) (counted : b.width.toNat * b.height.toNat < 2 ^ 62) :
    ¬ b.dump.code < 0 :=
  Dumped.not_neg_of_small (by omega)

/-- The block that is written has the size of the product modulo `2 ^ 32`. -/
theorem length_dump_eq (b : Bitmap) :
    b.dump.bytes.length = 12 + b.width.toNat * b.height.toNat % 2 ^ 32 := by
  simp only [dump, List.length_append, length_u32Bytes, b.allocated, UInt32.toNat_mul]

theorem length_dump (b : Bitmap) (noWrap : b.width.toNat * b.height.toNat < 2 ^ 32) :
    b.dump.bytes.length = 12 + b.width.toNat * b.height.toNat := by
  rw [b.length_dump_eq, Nat.mod_eq_of_lt noWrap]

/-- Without wrap-around `Dump` returns the number of bytes it writes. -/
theorem code_dump (b : Bitmap) (noWrap : b.width.toNat * b.height.toNat < 2 ^ 32) :
    b.dump.code = Int64.ofNat b.dump.bytes.length := by
  rw [b.length_dump noWrap]
  rfl

end Bitmap

end FlowRetrieval
