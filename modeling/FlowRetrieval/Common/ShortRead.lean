/-
# Short reads of a bitmap

`Load` reads the header as one item of twelve bytes and the data block as items of one
byte, and takes a return value of zero as the failure of either call. So a header that is
cut short is reported, and a data block only when nothing of it is left.

## Main results

* `Bitmap.run_load_header` — what `Load` makes of the bytes after a header
* `Bitmap.reportsShort_iff` — the cuts of a dump that are reported
-/
import FlowRetrieval.Common.BitmapStream

namespace FlowRetrieval

open CS.ByteCodec

namespace Bitmap

/-- `Load` returns a code other than zero for the first `k` bytes of the dump. -/
def ReportsShort (b : Bitmap) (k : ℕ) : Prop :=
  ∃ code, code ≠ 0 ∧ load.run (b.dump.bytes.take k) = .error code

/-- The bitmap that `Load` makes of a header and the bytes that it gets after it. -/
def filled (header : Header) (got : List UInt8) : Bitmap where
  toHeader := header
  data := (got ++ List.replicate (header.width * header.height).toNat 0).take
    (header.width * header.height).toNat
  allocated := by simp

/-- Any byte after the header is enough, unless the block is empty. -/
theorem run_load_header (header : Header) (rest : List UInt8) :
    load.run (u32Bytes header.width ++
        (u32Bytes header.size ++ (u32Bytes header.height ++ rest))) =
      if (rest.take (header.width * header.height).toNat).length = 0 then .error 1
      else .ok (filled header (rest.take (header.width * header.height).toNat),
        rest.drop (header.width * header.height).toNat) := by
  have step {α : Type} (word : UInt32) (next : UInt32 → Reader ℤ α) (bytes : List UInt8) :
      (readU32 1 >>= next).run (u32Bytes word ++ bytes) = (next word).run bytes := by
    rw [StateT.run_bind, (decodes_readU32 1 word).run]
    rfl
  rw [load, step, step, step, StateT.run_bind, StateT.run, someBlock]
  by_cases nothing : (rest.take (header.width * header.height).toNat).length = 0
  · rw [if_pos nothing, if_pos nothing]
    rfl
  · rw [if_neg nothing, if_neg nothing]
    rfl

theorem run_readU32_short {bytes : List UInt8} (short : bytes.length < 4) :
    (readU32 (1 : ℤ)).run bytes = .error 1 := by
  apply run_bind_error
  rw [StateT.run, block, if_neg (by omega)]

/-- A word of the header that is complete leaves the bytes after it. -/
theorem run_readU32_bind {α : Type} {next : UInt32 → Reader ℤ α} {bytes : List UInt8}
    (failed : ∀ word, 4 ≤ bytes.length → (next word).run (bytes.drop 4) = .error 1) :
    (readU32 1 >>= next).run bytes = .error 1 := by
  by_cases complete : 4 ≤ bytes.length
  · have read : (readU32 (1 : ℤ)).run bytes =
        .ok (UInt32.ofNat (ofLittleEndian (bytes.take 4)), bytes.drop 4) := by
      rw [readU32, StateT.run_bind, StateT.run, block, if_pos complete]
      rfl
    rw [StateT.run_bind, read]
    exact failed _ complete
  · exact run_bind_error _ (run_readU32_short (by omega))

/-- A header that is cut short is an error. -/
theorem run_load_short {bytes : List UInt8} (short : bytes.length < 12) :
    load.run bytes = .error 1 := by
  rw [load]
  refine run_readU32_bind fun width first => run_readU32_bind fun size second =>
    run_bind_error _ (run_readU32_short ?_)
  rw [List.length_drop] at second
  rw [List.length_drop, List.length_drop]
  omega

/-- A cut is reported exactly when it leaves no byte of the data. -/
theorem reportsShort_iff (b : Bitmap) {k : ℕ} (cut : k < b.dump.bytes.length) :
    b.ReportsShort k ↔ k ≤ 12 := by
  have whole : b.dump.bytes.length = 12 + b.data.length := by
    rw [b.length_dump_eq, b.allocated, UInt32.toNat_mul]
  by_cases inHeader : k < 12
  · have length : (b.dump.bytes.take k).length < 12 := (List.length_take_le _ _).trans_lt inHeader
    exact iff_of_true ⟨1, one_ne_zero, run_load_short length⟩ inHeader.le
  · obtain ⟨count, rfl⟩ := Nat.exists_eq_add_of_le (not_lt.mp inHeader)
    have header : (u32Bytes b.width ++ u32Bytes b.size ++ u32Bytes b.height).length = 12 := by
      simp
    have bytes : b.dump.bytes.take (12 + count) =
        u32Bytes b.width ++ (u32Bytes b.size ++ (u32Bytes b.height ++ b.data.take count)) := by
      rw [dump, ← header, List.take_length_add_append]
      simp only [List.append_assoc]
    have left : ((b.data.take count).take (b.width * b.height).toNat).length = count := by
      rw [← b.allocated, List.take_take, List.length_take]
      omega
    rw [ReportsShort, bytes, run_load_header b.toHeader, left]
    constructor
    · rintro ⟨code, -, failed⟩
      by_contra some
      rw [if_neg (by omega)] at failed
      cases failed
    · intro none
      exact ⟨1, one_ne_zero, if_pos (by omega)⟩

theorem reportsShort_header :
    ReportsShort ⟨⟨8, 1, 1⟩, [128, 0, 0, 0, 0, 0, 0, 0], rfl⟩ 12 :=
  (reportsShort_iff _ (by decide)).mpr (Nat.le_refl 12)

/-- One byte of the eight in a row is enough for `Load` to return zero. -/
theorem not_reportsShort_oneByte :
    ∃ b, generate [[0]] 1 = some b ∧ b.Occupied ∧ 13 < b.dump.bytes.length ∧
      ¬b.ReportsShort 13 := by
  refine ⟨⟨⟨8, 1, 1⟩, [128, 0, 0, 0, 0, 0, 0, 0], rfl⟩, by decide, ⟨by decide, by decide, by decide⟩,
    by decide, ?_⟩
  rintro ⟨code, -, failed⟩
  cases failed

end Bitmap

end FlowRetrieval
