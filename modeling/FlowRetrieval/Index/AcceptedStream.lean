/-
# Streams that `Load` accepts

`Load` takes the header of a bitmap as it stands: its width, size and height need not agree
with each other, with the length of the data or with its bits. `And` and `Or` read rows of the
width, and `Count` reads a bid for every bit of a mask.

## Main results

* `Bitmap.maskAt_combine` — `And` and `Or` on rows and masks leave a mask
* `BidBitmap.inside_of_load` — a consistent stream of at most `2 ^ 31` samples is read without
  leaving its data or its bids
* `BidBitmap.consistent_of_generate` — the streams of generated bitmaps are consistent
-/
import Mathlib.Data.List.GetD
import FlowRetrieval.Index.BidBitmap

namespace FlowRetrieval

open CS CS.BitPacking CS.ByteCodec

namespace Bitmap

/-- A data block that is there as a whole is that of the stream. -/
theorem data_of_load {b : Bitmap} {bytes rest : List UInt8}
    (accepted : load.run bytes = .ok (b, rest)) (complete : 12 + b.data.length ≤ bytes.length) :
    b.data = (bytes.drop 12).take b.data.length := by
  obtain ⟨width, afterWidth, readWidth, next⟩ := run_bind_eq_ok.mp accepted
  obtain ⟨size, afterSize, readSize, next⟩ := run_bind_eq_ok.mp next
  obtain ⟨height, afterHeight, readHeight, next⟩ := run_bind_eq_ok.mp next
  obtain ⟨got, afterBlock, readBlock, last⟩ := run_bind_eq_ok.mp next
  obtain ⟨rfl, -⟩ := Prod.mk.inj (Except.ok.inj last)
  rw [rest_of_readU32 1 readWidth] at readSize
  rw [rest_of_readU32 1 readSize, List.drop_drop] at readHeight
  rw [rest_of_readU32 1 readHeight, List.drop_drop, StateT.run, someBlock] at readBlock
  have length : ((got ++ List.replicate (width * height).toNat 0).take
      (width * height).toNat).length = (width * height).toNat := by simp
  dsimp only at complete ⊢
  rw [length] at complete ⊢
  split at readBlock
  · cases readBlock
  · obtain ⟨rfl, -⟩ := Prod.mk.inj (Except.ok.inj readBlock)
    apply List.take_left'
    rw [List.length_take, List.length_drop]
    omega

/-- The bytes that `And` and `Or` read of a row are in the data. -/
def RowsInside (b : Bitmap) : Prop :=
  ∀ row < b.height, ∀ k < 8 * b.getBound, (row * b.width).toNat + k < b.data.length

/-- The masks that `And` and `Or` compute from rows of the bitmap. -/
inductive IsMask (b : Bitmap) : (ℕ → UInt8) → Prop
  | row {r : UInt32} (inside : r < b.height) : IsMask b (b.rowByte r)
  | and {first second : ℕ → UInt8} :
      IsMask b first → IsMask b second → IsMask b fun k => first k &&& second k
  | or {first second : ℕ → UInt8} :
      IsMask b first → IsMask b second → IsMask b fun k => first k ||| second k

section Masks

variable {capacity : ℕ} {b : Bitmap}

/-- The bytes of a mask are in the buffer. -/
def MaskAt (b : Bitmap) (buffer : ByteMemory capacity) (address : ℕ) : Prop :=
  ∃ mask, b.IsMask mask ∧ ∀ k < 8 * b.getBound, buffer.load (address + k) = mask k

/-- An operand that is a row or the address of a mask. -/
def Operand.IsMask (b : Bitmap) (buffer : ByteMemory capacity) : Operand → Prop
  | .row index => index < b.height
  | .ptr address => b.MaskAt buffer address

theorem Operand.IsMask.bytes {buffer : ByteMemory capacity} {x : Operand}
    (isMask : x.IsMask b buffer) :
    ∃ mask, b.IsMask mask ∧ ∀ k < 8 * b.getBound, b.operandByte buffer x k = mask k := by
  cases x with
  | row index => exact ⟨_, .row isMask, fun _ _ => rfl⟩
  | ptr address => exact isMask

/-- `And` and `Or` of rows and masks, in place or apart from the result, leave a mask. -/
theorem maskAt_combine {op : UInt8 → UInt8 → UInt8}
    (closed : ∀ {first second}, b.IsMask first → b.IsMask second →
      b.IsMask fun k => op (first k) (second k))
    {buffer : ByteMemory capacity} {x y : Operand} {result : ℕ} (xMask : x.IsMask b buffer)
    (yMask : y.IsMask b buffer) (xApart : x.Apart result (8 * b.getBound))
    (yApart : y.Apart result (8 * b.getBound)) (fits : result + 8 * b.getBound ≤ capacity) :
    b.MaskAt (b.combine op x y result buffer) result := by
  obtain ⟨first, firstMask, firstBytes⟩ := xMask.bytes
  obtain ⟨second, secondMask, secondBytes⟩ := yMask.bytes
  refine ⟨_, closed firstMask secondMask, fun k inside => ?_⟩
  rw [load_combine op b buffer xApart yApart inside (by omega), firstBytes k inside,
    secondBytes k inside]

/-- The byte operations of `And` and `Or`. -/
inductive RowOp : (UInt8 → UInt8 → UInt8) → Prop
  | and : RowOp (· &&& ·)
  | or : RowOp (· ||| ·)

/-- What a call of `And` or `Or` leaves is a mask again. -/
def CombinesMasks (b : Bitmap) (capacity : ℕ) : Prop :=
  ∀ (op : UInt8 → UInt8 → UInt8) (buffer : ByteMemory capacity) (x y : Operand) (result : ℕ),
    RowOp op → x.IsMask b buffer → y.IsMask b buffer → x.Apart result (8 * b.getBound) →
    y.Apart result (8 * b.getBound) → result + 8 * b.getBound ≤ capacity →
    b.MaskAt (b.combine op x y result buffer) result

theorem combinesMasks (b : Bitmap) (capacity : ℕ) : b.CombinesMasks capacity := by
  intro op buffer x y result rowOp xMask yMask xApart yApart fits
  cases rowOp with
  | and => exact maskAt_combine IsMask.and xMask yMask xApart yApart fits
  | or => exact maskAt_combine IsMask.or xMask yMask xApart yApart fits

/-- The parts of the header agree with each other, and no row has a bit behind its last
column. -/
structure Consistent (b : Bitmap) : Prop where
  padded : b.Padded
  noWrap : b.width.toNat * b.height.toNat < 2 ^ 32
  blank : ∀ row < b.height, ∀ p < 8 * b.width.toNat, b.size.toNat ≤ p → b.cell row p = false

theorem Consistent.rowsInside (consistent : b.Consistent) : b.RowsInside := by
  intro row inside k within
  have below := UInt32.lt_iff_toNat_lt.mp inside
  have padded := consistent.padded
  rw [Padded] at padded
  rw [b.getBound_eq] at within
  rw [rowOffset_toNat inside consistent.noWrap, b.allocated, UInt32.toNat_mul,
    Nat.mod_eq_of_lt consistent.noWrap]
  calc
    row.toNat * b.width.toNat + k < row.toNat * b.width.toNat + b.width.toNat := by omega
    _ = (row.toNat + 1) * b.width.toNat := by ring
    _ ≤ b.height.toNat * b.width.toNat := Nat.mul_le_mul_right _ below
    _ = b.width.toNat * b.height.toNat := Nat.mul_comm _ _

/-- So no mask has a bit there either. -/
theorem Consistent.lt_size (consistent : b.Consistent) {mask : ℕ → UInt8}
    (isMask : b.IsMask mask) {p : ℕ} (within : p < 8 * b.width.toNat)
    (set : bitAt mask p = true) : p < b.size.toNat := by
  induction isMask with
  | row inside =>
    by_contra behind
    have blank := consistent.blank _ inside p within (Nat.not_lt.mp behind)
    exact Bool.false_ne_true (blank.symm.trans set)
  | and _ _ first _ =>
    rw [bitAt, bitOf_and, Bool.and_eq_true] at set
    exact first set.1
  | or _ _ first second =>
    rw [bitAt, bitOf_or, Bool.or_eq_true] at set
    exact set.elim first second

end Masks

end Bitmap

namespace BidBitmap

/-- `Count` reads nothing but the bids, for any mask of rows in a buffer. -/
def BidsInside (b : BidBitmap) (capacity : ℕ) : Prop :=
  ∀ (buffer : ByteMemory capacity) (address : ℕ), b.toBitmap.MaskAt buffer address →
    b.Inside fun k => buffer.load (address + k)

/-- The visited positions of a row of at most `2 ^ 31` samples are its indices. -/
theorem inside_of_lt_size {b : BidBitmap} {mask : ℕ → UInt8}
    (paired : b.bids.length = b.size.toNat) (short : b.size.toNat ≤ 2 ^ 31)
    (sample : ∀ p ∈ b.visited mask, p < b.size.toNat) : b.Inside mask := by
  intro index read
  obtain ⟨p, visited, rfl⟩ := List.mem_map.mp read
  have below := sample p visited
  rw [bidIndex_of_lt (below.trans_le short), paired]
  exact ⟨Int.natCast_nonneg p, Int.ofNat_lt.mpr below⟩

theorem bidsInside_of_consistent {b : BidBitmap} (paired : b.bids.length = b.size.toNat)
    (consistent : b.toBitmap.Consistent) (short : b.size.toNat ≤ 2 ^ 31) (capacity : ℕ) :
    b.BidsInside capacity := by
  intro buffer address mask
  obtain ⟨bytes, isMask, same⟩ := mask
  have bound := b.width_le_bound
  have narrow := b.intWidth_le
  apply inside_of_lt_size paired short
  intro p visited
  -- in the bytes that `Count` reads the buffer holds the mask
  rw [visited_eq_positions, positions_congr fun k within => same k (by omega),
    mem_positions] at visited
  exact consistent.lt_size isMask (by omega) visited.2

/-- The bids stand behind the bitmap, so that its data is that of the stream. -/
theorem data_of_load {self b : BidBitmap} {bytes rest : List UInt8}
    (accepted : self.load.run bytes = .ok (b, rest))
    (complete : 12 + b.data.length ≤ bytes.length) :
    b.data = (bytes.drop 12).take b.data.length := by
  obtain ⟨base, middle, readBase, next⟩ := run_bind_eq_ok.mp accepted
  obtain ⟨bids, behind, -, last⟩ := run_bind_eq_ok.mp next
  obtain ⟨rfl, -⟩ := Prod.mk.inj (Except.ok.inj last)
  exact Bitmap.data_of_load readBase complete

/-- What `And`, `Or` and `Count` read of an accepted stream that is consistent, has a complete
data block and at most `2 ^ 31` samples is that data and the bids behind it, whatever masks
calls of `And` and `Or` make of its rows. -/
theorem inside_of_load {self b : BidBitmap} {bytes rest : List UInt8}
    (accepted : self.load.run bytes = .ok (b, rest)) (complete : 12 + b.data.length ≤ bytes.length)
    (consistent : b.toBitmap.Consistent) (short : b.size.toNat ≤ 2 ^ 31) (capacity : ℕ) :
    b.data = (bytes.drop 12).take b.data.length ∧ b.toBitmap.RowsInside ∧
      b.toBitmap.CombinesMasks capacity ∧ b.BidsInside capacity :=
  ⟨data_of_load accepted complete, consistent.rowsInside, b.combinesMasks capacity,
    bidsInside_of_consistent (yields_load self bytes b rest accepted) consistent short capacity⟩

section Generate

variable {self b : BidBitmap} {cols : List (List UInt32)} {bids : List UInt16} {height : UInt32}
  (done : self.generate cols bids height = some b)

include done

theorem consistent_of_generate (noWrap : b.width.toNat * b.height.toNat < 2 ^ 32) :
    b.toBitmap.Consistent := by
  have base := (generate_eq_some done).1
  refine ⟨Bitmap.width_of_generate base, noWrap, fun row inside p within behind => ?_⟩
  rw [Bitmap.size_of_generate base] at behind
  rw [Bitmap.cell_of_generate base inside within noWrap, List.getD_eq_default _ _ behind]
  simp

/-- The dump of a generated bitmap is accepted, with a complete data block. -/
theorem load_dump_of_generate (occupied : b.Occupied) (other : BidBitmap) :
    other.load.run b.dump.bytes = .ok (b, []) ∧ 12 + b.data.length ≤ b.dump.bytes.length := by
  obtain ⟨base, -, paired⟩ := generate_eq_some done
  have noWrap := occupied.noWrap
  have padded : b.Padded := Bitmap.width_of_generate base
  have read := (b.decodes_load other (noWrap.trans (by norm_num))
    (padded.data_ne_nil occupied) paired).run []
  rw [List.append_nil] at read
  refine ⟨read, ?_⟩
  rw [b.length_dump noWrap, b.allocated, UInt32.toNat_mul, Nat.mod_eq_of_lt noWrap]
  exact Nat.le_add_right _ _

end Generate

/-- The stream of one sample. -/
theorem inside_oneSample : ∃ b, generate ⟨Bitmap.clear, []⟩ [[0]] [5] 1 = some b ∧
    b.toBitmap.RowsInside ∧ b.toBitmap.CombinesMasks 64 ∧ b.BidsInside 64 := by
  have accepted : (generate ⟨Bitmap.clear, []⟩ [[0]] [5] 1).isSome := by
    rw [isSome_generate_iff, Bitmap.isSome_generate_iff]
    simp
  obtain ⟨b, done⟩ := Option.isSome_iff_exists.mp accepted
  have base := (generate_eq_some done).1
  have size := Bitmap.size_of_generate base
  have width := Bitmap.width_of_generate base
  have height := Bitmap.height_of_generate base
  rw [size] at width
  have occupied : b.Occupied :=
    ⟨by rw [height]; decide, by rw [size]; decide, by rw [width, height]; decide⟩
  obtain ⟨read, complete⟩ := load_dump_of_generate done occupied b
  exact ⟨b, done, (inside_of_load read complete (consistent_of_generate done occupied.noWrap)
    (by rw [size]; decide) 64).2⟩

/-- A bitmap of one column whose row has all its bits set, and one bid. -/
def overfull : BidBitmap where
  width := 8
  size := 1
  height := 1
  data := List.replicate 8 255
  allocated := rfl
  bids := [5]

/-- The row of its mask, in a buffer. -/
def fullRow : ByteMemory 8 := fun _ => 255

theorem maskAt_fullRow : overfull.toBitmap.MaskAt fullRow 0 := by
  refine ⟨_, .row (r := 0) (by decide), fun k inside => ?_⟩
  have words : overfull.getBound = 1 := rfl
  rw [words] at inside
  interval_cases k <;> rfl

/-- `Load` accepts its dump, and for the mask of its row `Count` reads behind the bid. -/
theorem not_inside_overfull : ¬ ∀ (self b : BidBitmap) (bytes rest : List UInt8),
    self.load.run bytes = .ok (b, rest) → b.toBitmap.RowsInside ∧ b.BidsInside 8 := by
  intro claim
  have read := (overfull.decodes_load overfull (by decide) (by decide) rfl).run []
  have inside := (claim overfull overfull _ _ read).2 fullRow 0 maskAt_fullRow (bidIndex 1)
    (List.mem_map_of_mem (by rw [visited_eq_positions, mem_positions]; decide))
  exact absurd inside (by decide)

end BidBitmap

end FlowRetrieval
