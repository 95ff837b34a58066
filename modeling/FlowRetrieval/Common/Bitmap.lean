/-
# Bitmaps

The `common::Bitmap` class: `height` rows of `width` bytes, row `r` holding one
bit for each of `size` columns. Header arithmetic is the 32-bit arithmetic of the
source. A write outside the allocated block has no effect here and a read outside
it returns zero. Both are undefined behaviour of the source, so that a statement
says nothing about runs of the code in which they happen, and many statements are
about memories and queries for which their bounds exclude them: `InBounds` has
those of a request.

## Main results

* `Bitmap.cell_of_generate` — a generated bitmap has bit `(r, c)` exactly when
  `r` occurs in column `c`, padding columns included
* `Bitmap.load_combine` and `Bitmap.eqOn_combine` — what the row operations leave
  in a byte memory, and that it depends on nothing they do not read
* `Bitmap.popAll_eq_bitsOf` — popping lists the set bits of a byte
-/
import FlowRetrieval.CS.BitPacking
import FlowRetrieval.CS.ByteMemory
import Mathlib.Tactic.Ring

namespace FlowRetrieval

open CS CS.BitPacking

/-- `Bitmap::Header`: width in bytes, size in bits, number of rows. -/
structure Header where
  width : UInt32
  size : UInt32
  height : UInt32
  deriving DecidableEq, Repr

/-- `common::Bitmap`, with the block `new uint8_t[width * height]`. -/
@[ext]
structure Bitmap extends Header where
  data : List UInt8
  allocated : data.length = (width * height).toNat
  deriving DecidableEq, Repr

namespace Bitmap

/-- `Clear`, which is also the state of a new bitmap. -/
def clear : Bitmap where
  width := 0
  size := 0
  height := 0
  data := []
  allocated := rfl

/-- Byte `k` of row `row`, the row offset being computed in 32 bits. -/
def rowByte (b : Bitmap) (row : UInt32) (k : ℕ) : UInt8 :=
  b.data.getD ((row * b.width).toNat + k) 0

/-- `SetBit`. -/
def setBit (b : Bitmap) (row col : UInt32) : Bitmap :=
  let index := (row * b.width + (col >>> 3)).toNat
  { b with
    data := b.data.set index
      (b.data.getD index 0 ||| 1 <<< UInt8.ofNat (7 - (col &&& 7).toNat))
    allocated := by rw [List.length_set, b.allocated] }

/-- `GetBit`. -/
def getBit (b : Bitmap) (row col : UInt32) : UInt8 :=
  b.data.getD (row * b.width + (col >>> 3)).toNat 0 >>> UInt8.ofNat (7 - (col &&& 7).toNat) &&& 1

/-- The bit of row `row` in column `c`, for every column of the padded row. -/
def cell (b : Bitmap) (row : UInt32) (c : ℕ) : Bool := bitAt (b.rowByte row) c

/-- The width `Generate` computes: `size` rounded up to whole 64-bit words, in bytes. -/
def widthOf (size : UInt32) : UInt32 :=
  ((size >>> 6) + (if 0 < size &&& 63 then 1 else 0)) <<< 3

/-- The inner loop of `Generate`: set column `i`, stopping at an id past the last row. -/
def setColumn (b : Bitmap) (i : UInt32) : List UInt32 → Option Bitmap
  | [] => some b
  -- an id that names no row ends `Generate` with false
  | id :: ids => if b.height ≤ id then none else (b.setBit id i).setColumn i ids

/-- The outer loop of `Generate`, from column `i` on. -/
def setColumns (b : Bitmap) (i : UInt32) : List (List UInt32) → Option Bitmap
  | [] => some b
  | col :: cols => (b.setColumn i col).bind fun next => next.setColumns (i + 1) cols

/-- The zeroed block that `Generate` allocates for `count` columns. -/
def zeroed (count : ℕ) (height : UInt32) : Bitmap where
  size := UInt32.ofNat count
  width := widthOf (UInt32.ofNat count)
  height := height
  data := List.replicate (widthOf (UInt32.ofNat count) * height).toNat 0
  allocated := List.length_replicate

/-- `Generate`: the bitmap of a run that returns true. The 32-bit loop counters never
reach a length of `2 ^ 32` or more, so with such a length no run returns true. -/
def generate (cols : List (List UInt32)) (height : UInt32) : Option Bitmap :=
  if cols.length < 2 ^ 32 ∧ ∀ col ∈ cols, col.length < 2 ^ 32 then
    (zeroed cols.length height).setColumns 0 cols
  else none

section Generate

variable {b next : Bitmap}

@[simp] theorem setBit_toHeader (b : Bitmap) (row col : UInt32) :
    (b.setBit row col).toHeader = b.toHeader := rfl

/-- The inner loop goes on after an id that names a row. -/
theorem setColumn_cons_eq_some_iff {i id : UInt32} {ids : List UInt32} :
    b.setColumn i (id :: ids) = some next ↔
      id < b.height ∧ (b.setBit id i).setColumn i ids = some next := by
  rw [setColumn]
  by_cases outside : b.height ≤ id
  · simp [outside, UInt32.not_lt.mpr outside]
  · rw [if_neg outside, and_iff_right (UInt32.not_le.mp outside)]

theorem setColumn_toHeader {i : UInt32} {ids : List UInt32}
    (done : b.setColumn i ids = some next) : next.toHeader = b.toHeader := by
  induction ids generalizing b with
  | nil => rw [← Option.some.inj done]
  | cons id ids ih =>
    obtain ⟨-, rest⟩ := setColumn_cons_eq_some_iff.mp done
    exact (ih rest).trans (setBit_toHeader b id i)

theorem setColumns_toHeader {i : UInt32} {cols : List (List UInt32)}
    (done : b.setColumns i cols = some next) : next.toHeader = b.toHeader := by
  induction cols generalizing b i with
  | nil => rw [← Option.some.inj done]
  | cons col cols ih =>
    obtain ⟨middle, first, rest⟩ := Option.bind_eq_some_iff.mp done
    exact (ih rest).trans (setColumn_toHeader first)

theorem toNat_shiftRight_three (n : UInt32) : (n >>> 3).toNat = n.toNat / 8 := by
  simp [UInt32.toNat_shiftRight, Nat.shiftRight_eq_div_pow]

private theorem toNat_and_seven (n : UInt32) : (n &&& 7).toNat = n.toNat % 8 := by
  rw [UInt32.toNat_and]
  exact Nat.and_two_pow_sub_one_eq_mod n.toNat 3

/-- Inside an unwrapped block a row offset is the plain product. -/
theorem rowOffset_toNat {row : UInt32} (inside : row < b.height)
    (noWrap : b.width.toNat * b.height.toNat < 2 ^ 32) :
    (row * b.width).toNat = row.toNat * b.width.toNat := by
  have below : row.toNat * b.width.toNat ≤ b.height.toNat * b.width.toNat :=
    Nat.mul_le_mul_right _ (UInt32.lt_iff_toNat_lt.mp inside).le
  rw [UInt32.toNat_mul, Nat.mod_eq_of_lt (by rw [Nat.mul_comm] at noWrap; omega)]

/-- The rows lie one after the other in the block. -/
theorem cell_eq_bitAt {r : UInt32} (inside : r < b.height)
    (noWrap : b.width.toNat * b.height.toNat < 2 ^ 32) (c : ℕ) :
    b.cell r c = bitAt (fun a => b.data.getD a 0) (8 * (r.toNat * b.width.toNat) + c) := by
  unfold cell bitAt rowByte
  rw [rowOffset_toNat inside noWrap, Nat.mul_add_div (by norm_num), Nat.mul_add_mod]

private theorem getD_set_eq_update (bytes : List UInt8) {i : ℕ} (inside : i < bytes.length)
    (value : UInt8) :
    (fun a => (bytes.set i value).getD a 0) =
      Function.update (fun a => bytes.getD a 0) i value := by
  funext a
  -- a byte is read back where it was set, and every other position keeps its own
  by_cases same : a = i
  · subst same
    simp [inside]
  · rw [Function.update_of_ne same]
    simp [List.getElem?_set_ne (Ne.symm same)]

private theorem row_col_inj {w r c r' c' : ℕ} (cInside : c < 8 * w) (cInside' : c' < 8 * w) :
    8 * (r * w) + c = 8 * (r' * w) + c' ↔ r = r' ∧ c = c' := by
  constructor
  · intro same
    have shift (x : ℕ) : 8 * (x * w) = 8 * w * x := by ring
    rw [shift, shift] at same
    -- row and column are the quotient and the remainder by the row length in bits
    have rows := congrArg (· / (8 * w)) same
    have cols := congrArg (· % (8 * w)) same
    simp only [Nat.mul_add_mod, Nat.mod_eq_of_lt cInside, Nat.mod_eq_of_lt cInside'] at cols
    simp only [Nat.mul_add_div (by omega : 0 < 8 * w), Nat.div_eq_of_lt cInside,
      Nat.div_eq_of_lt cInside', Nat.add_zero] at rows
    exact ⟨rows, cols⟩
  · rintro ⟨rfl, rfl⟩
    rfl

/-- The byte and the bit at which `SetBit` and `GetBit` find a cell of the block. -/
theorem bitIndex {row col : UInt32} (rowInside : row < b.height)
    (colInside : col.toNat < 8 * b.width.toNat)
    (noWrap : b.width.toNat * b.height.toNat < 2 ^ 32) :
    (row * b.width + (col >>> 3)).toNat =
        (8 * (row.toNat * b.width.toNat) + col.toNat) / 8 ∧
      (col &&& 7).toNat = (8 * (row.toNat * b.width.toNat) + col.toNat) % 8 ∧
      (8 * (row.toNat * b.width.toNat) + col.toNat) / 8 < b.data.length := by
  have rowBound := UInt32.lt_iff_toNat_lt.mp rowInside
  -- row `row` ends inside the block, so that no offset wraps around in 32 bits
  have block : row.toNat * b.width.toNat + b.width.toNat ≤ b.width.toNat * b.height.toNat := by
    calc
      row.toNat * b.width.toNat + b.width.toNat = (row.toNat + 1) * b.width.toNat := by ring
      _ ≤ b.height.toNat * b.width.toNat := Nat.mul_le_mul_right _ rowBound
      _ = b.width.toNat * b.height.toNat := Nat.mul_comm _ _
  refine ⟨?_, ?_, ?_⟩
  · rw [UInt32.toNat_add, rowOffset_toNat rowInside noWrap, toNat_shiftRight_three,
      Nat.mul_add_div (by norm_num), Nat.mod_eq_of_lt (by omega)]
  · rw [toNat_and_seven, Nat.mul_add_mod]
  · rw [b.allocated, UInt32.toNat_mul, Nat.mod_eq_of_lt noWrap]
    omega

/-- Setting one bit inside the block changes that cell and no other. -/
theorem cell_setBit {row r col : UInt32} {c : ℕ}
    (rowInside : row < b.height) (rInside : r < b.height)
    (colInside : col.toNat < 8 * b.width.toNat) (cInside : c < 8 * b.width.toNat)
    (noWrap : b.width.toNat * b.height.toNat < 2 ^ 32) :
    (b.setBit row col).cell r c = (decide (r = row ∧ c = col.toNat) || b.cell r c) := by
  obtain ⟨index, bit, allocated⟩ := bitIndex rowInside colInside noWrap
  -- both cells are positions of one bit string, in which `setBit` sets a single position
  rw [cell_eq_bitAt (b := b.setBit row col) rInside noWrap, cell_eq_bitAt rInside noWrap]
  simp only [setBit, index, bit]
  rw [getD_set_eq_update _ allocated, bitAt_setBit]
  congr 1
  rw [decide_eq_decide, row_col_inj cInside colInside, UInt32.toNat_inj]

/-- `GetBit` reads the cells of the block. -/
theorem getBit_eq {row col : UInt32} (rowInside : row < b.height)
    (colInside : col.toNat < 8 * b.width.toNat)
    (noWrap : b.width.toNat * b.height.toNat < 2 ^ 32) :
    b.getBit row col = if b.cell row col.toNat then 1 else 0 := by
  obtain ⟨index, bit, -⟩ := bitIndex rowInside colInside noWrap
  rw [getBit, shiftRight_and_one _ (by omega), index, bit, cell_eq_bitAt rowInside noWrap]
  rfl

/-- The inner loop adds column `i` of the rows it names. -/
theorem cell_setColumn {i r : UInt32} {c : ℕ} {ids : List UInt32}
    (done : b.setColumn i ids = some next) (rInside : r < b.height)
    (iInside : i.toNat < 8 * b.width.toNat) (cInside : c < 8 * b.width.toNat)
    (noWrap : b.width.toNat * b.height.toNat < 2 ^ 32) :
    next.cell r c = (decide (r ∈ ids ∧ c = i.toNat) || b.cell r c) := by
  induction ids generalizing b with
  | nil =>
    obtain rfl := Option.some.inj done
    simp
  | cons id ids ih =>
    obtain ⟨inside, rest⟩ := setColumn_cons_eq_some_iff.mp done
    rw [ih (b := b.setBit id i) rest rInside iInside cInside noWrap,
      cell_setBit inside rInside iInside cInside noWrap, ← Bool.or_assoc, ← Bool.decide_or]
    congr 1
    rw [decide_eq_decide, List.mem_cons]
    tauto

/-- The outer loop adds, for the columns it runs over, the rows they list. -/
theorem cell_setColumns {i r : UInt32} {c : ℕ} {cols : List (List UInt32)}
    (done : b.setColumns i cols = some next) (rInside : r < b.height)
    (counter : i.toNat + cols.length < 2 ^ 32)
    (inside : i.toNat + cols.length ≤ 8 * b.width.toNat) (cInside : c < 8 * b.width.toNat)
    (noWrap : b.width.toNat * b.height.toNat < 2 ^ 32) :
    next.cell r c =
      (decide (i.toNat ≤ c ∧ r ∈ cols.getD (c - i.toNat) []) || b.cell r c) := by
  induction cols generalizing b i with
  | nil =>
    obtain rfl := Option.some.inj done
    simp
  | cons col cols ih =>
    obtain ⟨middle, first, rest⟩ := Option.bind_eq_some_iff.mp done
    have header := setColumn_toHeader first
    rw [List.length_cons] at counter inside
    -- the counter does not wrap around before the last column
    have step : (i + 1).toNat = i.toNat + 1 := by
      rw [UInt32.toNat_add, UInt32.toNat_one, Nat.mod_eq_of_lt (by omega)]
    have width : middle.width = b.width := congrArg Header.width header
    have height : middle.height = b.height := congrArg Header.height header
    rw [ih rest (by rwa [height]) (by omega) (by rw [width]; omega) (by rwa [width])
        (by rwa [width, height]),
      cell_setColumn first rInside (by omega) cInside noWrap, ← Bool.or_assoc, ← Bool.decide_or]
    congr 1
    rw [decide_eq_decide, step]
    -- a column before the counter is left alone, the counter names the first column,
    -- and what is behind it is what the rest of the loop runs over
    rcases Nat.lt_trichotomy c i.toNat with before | here | after
    · simp only [Nat.not_le.mpr before, Nat.not_le.mpr (Nat.lt_succ_of_lt before), before.ne,
        false_and, and_false, or_self]
    · subst here
      simp
    · obtain ⟨k, rfl⟩ := Nat.exists_eq_add_of_lt after
      have shift : i.toNat + k + 1 - i.toNat = k + 1 := by omega
      have shift' : i.toNat + k + 1 - (i.toNat + 1) = k := by omega
      rw [shift, shift', List.getD_cons_succ]
      constructor
      · rintro (⟨-, member⟩ | ⟨-, same⟩)
        · exact ⟨by omega, member⟩
        · omega
      · exact fun ⟨_, member⟩ => Or.inl ⟨by omega, member⟩

theorem widthOf_toNat (size : UInt32) : (widthOf size).toNat = 8 * ((size.toNat + 63) / 64) := by
  have bound := size.toNat_lt
  have low : (size &&& 63).toNat = size.toNat % 64 := by
    rw [UInt32.toNat_and]
    exact Nat.and_two_pow_sub_one_eq_mod size.toNat 6
  have high : (size >>> 6).toNat = size.toNat / 64 := by
    simp [UInt32.toNat_shiftRight, Nat.shiftRight_eq_div_pow]
  have words : (size >>> 6 + (if 0 < size &&& 63 then 1 else 0)).toNat =
      (size.toNat + 63) / 64 := by
    rw [UInt32.toNat_add, high]
    -- the added word is there exactly when the last word is not full
    split
    · rename_i partly
      rw [UInt32.lt_iff_toNat_lt, low, UInt32.toNat_zero] at partly
      rw [UInt32.toNat_one]
      omega
    · rename_i whole
      rw [UInt32.lt_iff_toNat_lt, low, UInt32.toNat_zero] at whole
      rw [UInt32.toNat_zero]
      omega
  have three : (3 : UInt32).toNat % 32 = 3 := rfl
  rw [widthOf, UInt32.toNat_shiftLeft, words, three, Nat.shiftLeft_eq]
  omega

section Spec

variable {cols : List (List UInt32)} {height : UInt32}

private theorem generate_eq_some (done : generate cols height = some b) :
    cols.length < 2 ^ 32 ∧ (zeroed cols.length height).setColumns 0 cols = some b := by
  rw [generate] at done
  split at done
  · rename_i short
    exact ⟨short.1, done⟩
  · cases done

theorem toHeader_of_generate (done : generate cols height = some b) :
    b.toHeader =
      ⟨widthOf (UInt32.ofNat cols.length), UInt32.ofNat cols.length, height⟩ :=
  setColumns_toHeader (generate_eq_some done).2

theorem height_of_generate (done : generate cols height = some b) : b.height = height :=
  congrArg Header.height (toHeader_of_generate done)

/-- The size of a generated bitmap is the number of its columns. -/
theorem size_of_generate (done : generate cols height = some b) :
    b.size.toNat = cols.length := by
  rw [congrArg Header.size (toHeader_of_generate done), UInt32.toNat_ofNat',
    Nat.mod_eq_of_lt (generate_eq_some done).1]

/-- Rows of a generated bitmap are padded to whole 64-bit words. -/
theorem width_of_generate (done : generate cols height = some b) :
    b.width.toNat = 8 * ((b.size.toNat + 63) / 64) := by
  rw [congrArg Header.width (toHeader_of_generate done), widthOf_toNat,
    congrArg Header.size (toHeader_of_generate done)]

private theorem isSome_setColumn_iff {i : UInt32} {ids : List UInt32} :
    (b.setColumn i ids).isSome ↔ ∀ id ∈ ids, id < b.height := by
  induction ids generalizing b with
  | nil => exact iff_of_true rfl (List.forall_mem_nil _)
  | cons id ids ih =>
    rw [setColumn, List.forall_mem_cons]
    by_cases outside : b.height ≤ id
    · simp [outside, UInt32.not_lt.mpr outside]
    · rw [if_neg outside, and_iff_right (UInt32.not_le.mp outside), ih,
        congrArg Header.height (setBit_toHeader b id i)]

private theorem isSome_setColumns_iff {i : UInt32} {cols : List (List UInt32)} :
    (b.setColumns i cols).isSome ↔ ∀ col ∈ cols, ∀ id ∈ col, id < b.height := by
  induction cols generalizing b i with
  | nil => exact iff_of_true rfl (List.forall_mem_nil _)
  | cons col cols ih =>
    rw [setColumns, List.forall_mem_cons, ← isSome_setColumn_iff (i := i)]
    cases first : b.setColumn i col with
    | none => simp
    | some next =>
      rw [Option.bind_some, ih, congrArg Header.height (setColumn_toHeader first)]
      exact (and_iff_right rfl).symm

/-- `Generate` succeeds when no loop counter is exceeded and every id names a row. -/
theorem isSome_generate_iff :
    (generate cols height).isSome ↔
      cols.length < 2 ^ 32 ∧ (∀ col ∈ cols, col.length < 2 ^ 32) ∧
        ∀ col ∈ cols, ∀ id ∈ col, id < height := by
  rw [generate, ← and_assoc]
  by_cases short : cols.length < 2 ^ 32 ∧ ∀ col ∈ cols, col.length < 2 ^ 32
  · rw [if_pos short, and_iff_right short]
    exact isSome_setColumns_iff
  · rw [if_neg short]
    exact iff_of_false Bool.false_ne_true fun all => short all.1

/-- Every id of every column names a row. -/
theorem lt_height_of_generate (done : generate cols height = some b) :
    ∀ col ∈ cols, ∀ id ∈ col, id < height :=
  (isSome_generate_iff.mp (Option.isSome_of_eq_some done)).2.2

/-- A generated bitmap holds exactly the columns it was generated from; its
padding bits are zero. -/
theorem cell_of_generate {r : UInt32} {c : ℕ} (done : generate cols height = some b)
    (rInside : r < b.height) (cInside : c < 8 * b.width.toNat)
    (noWrap : b.width.toNat * b.height.toNat < 2 ^ 32) :
    b.cell r c = decide (r ∈ cols.getD c []) := by
  obtain ⟨short, run⟩ := generate_eq_some done
  have header := setColumns_toHeader run
  have width : (zeroed cols.length height).width = b.width := (congrArg Header.width header).symm
  have rows : (zeroed cols.length height).height = b.height :=
    (congrArg Header.height header).symm
  have columns := size_of_generate done
  have padded := width_of_generate done
  rw [cell_setColumns run (by rwa [rows]) (by simpa using short) (by rw [width]; simp; omega)
    (by rwa [width]) (by rwa [width, rows])]
  -- the loops start from a block of zeros
  have blank : (zeroed cols.length height).cell r c = false := by
    simp [cell, bitAt, rowByte, zeroed, List.getD_eq_getElem?_getD, List.getElem?_replicate]
    split <;> simp
  simp [blank]

end Spec

end Generate

section Combine

/-- An argument of `And` and `Or`: a row of the bitmap, or an address in the buffer. -/
inductive Operand
  | row (index : UInt32)
  | ptr (address : ℕ)

variable {capacity : ℕ}

/-- Byte `k` of an operand. -/
def operandByte (b : Bitmap) (buffer : ByteMemory capacity) : Operand → ℕ → UInt8
  | .row index, k => b.rowByte index k
  | .ptr address, k => buffer.load (address + k)

/-- `GetBound`: the number of 64-bit words of a row. -/
def getBound (b : Bitmap) : ℕ :=
  ((b.width >>> 3) + (if 0 < b.width &&& 7 then 1 else 0)).toNat

/-- The loop shared by the overloads of `And` and `Or`. The source combines whole
64-bit words; `&` and `|` act on each byte of a word separately, so the loop is
written here byte by byte. -/
def combine (op : UInt8 → UInt8 → UInt8) (b : Bitmap) (first second : Operand) (result : ℕ)
    (buffer : ByteMemory capacity) : ByteMemory capacity :=
  buffer.sweep
    (fun current k => op (b.operandByte current first k) (b.operandByte current second k))
    result (8 * b.getBound)

/-- `And(uint32_t, uint32_t, uint8_t*)`. -/
def andRows (b : Bitmap) (first second : UInt32) (result : ℕ) :
    ByteMemory capacity → ByteMemory capacity :=
  b.combine (· &&& ·) (.row first) (.row second) result

/-- `Or(uint32_t, uint32_t, uint8_t*)`. -/
def orRows (b : Bitmap) (first second : UInt32) (result : ℕ) :
    ByteMemory capacity → ByteMemory capacity :=
  b.combine (· ||| ·) (.row first) (.row second) result

/-- `And(uint32_t, uint8_t*, uint8_t*)`. -/
def andRow (b : Bitmap) (first : UInt32) (second result : ℕ) :
    ByteMemory capacity → ByteMemory capacity :=
  b.combine (· &&& ·) (.row first) (.ptr second) result

/-- `Or(uint32_t, uint8_t*, uint8_t*)`. -/
def orRow (b : Bitmap) (first : UInt32) (second result : ℕ) :
    ByteMemory capacity → ByteMemory capacity :=
  b.combine (· ||| ·) (.row first) (.ptr second) result

/-- `And(uint8_t*, uint8_t*, uint8_t*)`. -/
def andBuffers (b : Bitmap) (first second result : ℕ) :
    ByteMemory capacity → ByteMemory capacity :=
  b.combine (· &&& ·) (.ptr first) (.ptr second) result

/-- `Or(uint8_t*, uint8_t*, uint8_t*)`. -/
def orBuffers (b : Bitmap) (first second result : ℕ) :
    ByteMemory capacity → ByteMemory capacity :=
  b.combine (· ||| ·) (.ptr first) (.ptr second) result

/-- The loops of `GetTarget` and `Union` that unite the rows of a group. They read the
first row of an empty group, which no caller has; such a group changes nothing here. -/
def orGroup (b : Bitmap) (result : ℕ) (group : List Int32) (buffer : ByteMemory capacity) :
    ByteMemory capacity :=
  match group with
  | [] => buffer
  | [row] => b.orRows row.toUInt32 row.toUInt32 result buffer
  | first :: second :: rows =>
    rows.foldl (fun current row => b.orRow row.toUInt32 result result current)
      (b.orRows first.toUInt32 second.toUInt32 result buffer)

theorem getBound_eq (b : Bitmap) : b.getBound = (b.width.toNat + 7) / 8 := by
  have bound := b.width.toNat_lt
  have low := toNat_and_seven b.width
  rw [getBound, UInt32.toNat_add, toNat_shiftRight_three]
  split
  · rename_i partly
    rw [UInt32.lt_iff_toNat_lt, low, UInt32.toNat_zero] at partly
    rw [UInt32.toNat_one]
    omega
  · rename_i whole
    rw [UInt32.lt_iff_toNat_lt, low, UInt32.toNat_zero] at whole
    rw [UInt32.toNat_zero]
    omega

theorem width_le_bound (b : Bitmap) : b.width.toNat ≤ 8 * b.getBound := by
  rw [getBound_eq]
  omega

/-- The operand is a row, or an address whose bytes are the result's own or
apart from the result. -/
def Operand.Apart (result count : ℕ) : Operand → Prop
  | .row _ => True
  | .ptr address => address = result ∨ address + count ≤ result ∨ result + count ≤ address

/-- The addresses an operand reads. -/
def Operand.reads (count : ℕ) : Operand → Set ℕ
  | .row _ => ∅
  | .ptr address => Set.Ico address (address + count)

theorem operandByte_congr (b : Bitmap) {first second : ByteMemory capacity} {x : Operand}
    {count k : ℕ} (inside : k < count) (agree : Set.EqOn first.load second.load (x.reads count)) :
    b.operandByte first x k = b.operandByte second x k := by
  cases x with
  | row index => rfl
  | ptr address => exact agree (Set.mem_Ico.mpr (by omega))

/-- In-place or disjoint, a row operation combines the operands as they were
before it started. -/
theorem load_combine (op : UInt8 → UInt8 → UInt8) (b : Bitmap) {x y : Operand} {result : ℕ}
    (buffer : ByteMemory capacity) (xApart : x.Apart result (8 * b.getBound))
    (yApart : y.Apart result (8 * b.getBound)) {k : ℕ} (inside : k < 8 * b.getBound)
    (fits : result + k < capacity) :
    (b.combine op x y result buffer).load (result + k) =
      op (b.operandByte buffer x k) (b.operandByte buffer y k) := by
  -- step `j` reads its operands at offset `j`, and the earlier steps wrote smaller offsets
  -- of the result, so that a shared address still has its old byte
  have untouched {z : Operand} (apart : z.Apart result (8 * b.getBound)) (j : ℕ)
      (small : j < 8 * b.getBound) (other : ByteMemory capacity)
      (outside : ∀ address, address ∉ Set.Ico result (result + j) →
        other.load address = buffer.load address) :
      b.operandByte other z j = b.operandByte buffer z j := by
    cases z with
    | row index => rfl
    | ptr address =>
      apply outside
      intro member
      rw [Set.mem_Ico] at member
      rcases apart with rfl | before | after <;> omega
  refine ByteMemory.load_sweep _ result _ buffer (fun j hj other outside => ?_) inside fits
  rw [untouched xApart j hj other outside, untouched yApart j hj other outside]

theorem load_combine_of_notMem (op : UInt8 → UInt8 → UInt8) (b : Bitmap) (x y : Operand)
    {result : ℕ} (buffer : ByteMemory capacity) {address : ℕ}
    (outside : address ∉ Set.Ico result (result + 8 * b.getBound)) :
    (b.combine op x y result buffer).load address = buffer.load address :=
  ByteMemory.load_sweep_of_notMem _ result _ buffer outside

/-- A row operation turns agreement on what it reads into agreement on what it writes. -/
theorem eqOn_combine (op : UInt8 → UInt8 → UInt8) (b : Bitmap) {x y : Operand} (result : ℕ)
    {region : Set ℕ} {first second : ByteMemory capacity}
    (xReads : x.reads (8 * b.getBound) ⊆ region) (yReads : y.reads (8 * b.getBound) ⊆ region)
    (agree : Set.EqOn first.load second.load region) :
    Set.EqOn (b.combine op x y result first).load (b.combine op x y result second).load
      (region ∪ Set.Ico result (result + 8 * b.getBound)) := by
  refine ByteMemory.eqOn_sweep _ result _ (fun k hk m₁ m₂ same => ?_) agree
  rw [operandByte_congr b hk (same.mono xReads), operandByte_congr b hk (same.mono yReads)]

/-- A bitwise operation acts on each column of its operands. -/
theorem bitAt_combine {op : UInt8 → UInt8 → UInt8} {onBit : Bool → Bool → Bool}
    (bitwise : ∀ x y j, bitOf (op x y) j = onBit (bitOf x j) (bitOf y j)) (b : Bitmap)
    {x y : Operand} {result : ℕ} (buffer : ByteMemory capacity)
    (xApart : x.Apart result (8 * b.getBound)) (yApart : y.Apart result (8 * b.getBound))
    {c : ℕ} (inside : c < 8 * b.width.toNat) (fits : result + c / 8 < capacity) :
    bitAt (fun k => (b.combine op x y result buffer).load (result + k)) c =
      onBit (bitAt (b.operandByte buffer x) c) (bitAt (b.operandByte buffer y) c) := by
  have bound := b.width_le_bound
  simp only [bitAt]
  rw [load_combine op b buffer xApart yApart (by omega) fits, bitwise]

/-- Intersecting the bytes at `result` in place adds no bit, whatever the other operand is. -/
theorem bitOf_combine_and_imp (b : Bitmap) {y : Operand} {result : ℕ}
    (buffer : ByteMemory capacity) {address j : ℕ}
    (set : bitOf ((b.combine (· &&& ·) (.ptr result) y result buffer).load address) j = true) :
    bitOf (buffer.load address) j = true := by
  rw [combine] at set
  generalize 8 * b.getBound = count at set
  -- the last step changes one address, where it reads what was there before
  induction count with
  | zero => exact set
  | succ count ih =>
    apply ih
    rw [ByteMemory.sweep] at set
    by_cases last : address = result + count
    · subst last
      by_cases inside : result + count < capacity
      · rw [ByteMemory.load_store_self _ _ inside, bitOf_and, Bool.and_eq_true] at set
        exact set.1
      · rw [ByteMemory.load_of_ge _ (not_lt.mp inside), bitOf_zero] at set
        cases set
    · rwa [ByteMemory.load_store_of_ne _ _ last] at set

/-- Adding rows to the bytes at `result` one after the other unites all of them. -/
theorem bitAt_foldl_orRow (b : Bitmap) {result : ℕ} (rows : List Int32)
    (buffer : ByteMemory capacity) {c : ℕ} (inside : c < 8 * b.width.toNat)
    (fits : result + c / 8 < capacity) :
    bitAt (fun k => (rows.foldl
        (fun current row => b.orRow row.toUInt32 result result current) buffer).load
          (result + k)) c =
      (bitAt (fun k => buffer.load (result + k)) c ||
        rows.any fun row => b.cell row.toUInt32 c) := by
  induction rows generalizing buffer with
  | nil => simp
  | cons row rows ih =>
    have step : bitAt (fun k => (b.orRow row.toUInt32 result result buffer).load (result + k)) c =
        (b.cell row.toUInt32 c || bitAt (fun k => buffer.load (result + k)) c) :=
      bitAt_combine bitOf_or b (x := .row row.toUInt32) (y := .ptr result) buffer trivial
        (.inl rfl) inside fits
    rw [List.foldl_cons, ih, step, List.any_cons, ← Bool.or_assoc,
      Bool.or_comm (b.cell row.toUInt32 c)]

/-- Uniting a group leaves in every column whether some row of the group has its bit set. -/
theorem bitAt_orGroup (b : Bitmap) (result : ℕ) (buffer : ByteMemory capacity)
    {group : List Int32} (nonempty : group ≠ []) {c : ℕ} (inside : c < 8 * b.width.toNat)
    (fits : result + c / 8 < capacity) :
    bitAt (fun k => (b.orGroup result group buffer).load (result + k)) c =
      group.any fun row => b.cell row.toUInt32 c := by
  have rows (first second : UInt32) :
      bitAt (fun k => (b.orRows first second result buffer).load (result + k)) c =
        (b.cell first c || b.cell second c) :=
    bitAt_combine bitOf_or b (x := .row first) (y := .row second) buffer trivial trivial inside fits
  -- groups of one row, and the first two rows of a longer one, have calls of their own
  match group with
  | [row] => simpa [orGroup] using rows row.toUInt32 row.toUInt32
  | first :: second :: rest =>
    rw [orGroup, bitAt_foldl_orRow b rest _ inside fits, rows, List.any_cons, List.any_cons,
      Bool.or_assoc]

/-- Uniting a group changes no address outside the result. -/
theorem load_orGroup_of_notMem (b : Bitmap) {result : ℕ} (group : List Int32)
    (buffer : ByteMemory capacity) {address : ℕ}
    (outside : address ∉ Set.Ico result (result + 8 * b.getBound)) :
    (b.orGroup result group buffer).load address = buffer.load address := by
  match group with
  | [] => rfl
  | [row] => exact load_combine_of_notMem _ b _ _ buffer outside
  | first :: second :: rows =>
    rw [orGroup]
    -- from the back, since the last row is united last
    induction rows using List.reverseRecOn with
    | nil => exact load_combine_of_notMem _ b _ _ buffer outside
    | append_singleton rows row ih =>
      rw [List.foldl_append, ← ih]
      exact load_combine_of_notMem _ b _ _ _ outside

/-- Uniting a group reads nothing it has not written. -/
theorem eqOn_orGroup (b : Bitmap) (result : ℕ) {group : List Int32} (nonempty : group ≠ [])
    {region : Set ℕ} {first second : ByteMemory capacity}
    (agree : Set.EqOn first.load second.load region) :
    Set.EqOn (b.orGroup result group first).load (b.orGroup result group second).load
      (region ∪ Set.Ico result (result + 8 * b.getBound)) := by
  -- the first call reads rows of the bitmap only
  have rows (x y : UInt32) : Set.EqOn (b.orRows x y result first).load
      (b.orRows x y result second).load (region ∪ Set.Ico result (result + 8 * b.getBound)) :=
    eqOn_combine _ b result (Set.empty_subset _) (Set.empty_subset _) agree
  match group with
  | [row] => exact rows row.toUInt32 row.toUInt32
  | x :: y :: rest =>
    simp only [orGroup]
    induction rest using List.reverseRecOn with
    | nil => exact rows x.toUInt32 y.toUInt32
    | append_singleton rest row ih =>
      rw [List.foldl_append, List.foldl_append]
      have united := ih (List.cons_ne_nil _ _)
      exact (eqOn_combine _ b result (Set.empty_subset _) Set.subset_union_right united).mono
        Set.subset_union_left

end Combine

section Count

/-- `Pop`: the lowest set bit of a byte and the byte without it; `none` is the
source's `-1`. -/
def pop (byte : UInt8) : Option (ℕ × UInt8) :=
  if byte = 0 then none
  else
    -- `del` is the lowest set bit, and `__builtin_ctz` its index
    let del := byte &&& (byte ^^^ (byte - 1))
    some (((List.range 8).find? (bitOf del)).getD 8, byte - del)

/-- The values of `j` in `for (j = Pop(s); j >= 0; j = Pop(s))`, for at most `fuel` rounds. -/
def popAll : ℕ → UInt8 → List ℕ
  | 0, _ => []
  | fuel + 1, byte =>
    match pop byte with
    | none => []
    | some (j, rest) => j :: popAll fuel rest

/-- Eight rounds empty every byte and list its set bits. -/
theorem popAll_eq_bitsOf (byte : UInt8) : popAll 8 byte = bitsOf byte := by
  -- a byte has only 256 values
  have table : ∀ n : Fin 256, popAll 8 (UInt8.ofNat n) = bitsOf (UInt8.ofNat n) := by
    decide +kernel
  simpa using table ⟨byte.toNat, byte.toNat_lt⟩

/-- The loop bound `static_cast<int>(width)`, negative from `2 ^ 31` on. -/
def intWidth (b : Bitmap) : ℕ := if b.width.toNat < 2 ^ 31 then b.width.toNat else 0

theorem intWidth_le (b : Bitmap) : b.intWidth ≤ b.width.toNat := by
  rw [intWidth]
  split <;> omega

/-- The counting loop shared by the overloads of `Count`. -/
def countBytes (b : Bitmap) (bytes : ℕ → UInt8) : Int32 :=
  (List.range b.intWidth).foldl
    (fun sum i => (popAll 8 (bytes i)).foldl (fun sum _ => sum + 1) sum) 0

/-- `Count(const uint8_t*)`. -/
def countMask (b : Bitmap) (mask : ℕ → UInt8) : Int32 := b.countBytes mask

/-- `Count(uint32_t)`. -/
def countRow (b : Bitmap) (index : UInt32) : Int32 :=
  if index < b.height then b.countBytes (b.rowByte index) else 0

/-- `Count` counts the set bits, modulo `2 ^ 32`. -/
theorem countBytes_eq (b : Bitmap) (bytes : ℕ → UInt8) :
    b.countBytes bytes = Int32.ofNat (positions b.intWidth bytes).length := by
  have increments (bits : List ℕ) (sum : Int32) :
      bits.foldl (fun sum _ => sum + 1) sum = sum + Int32.ofNat bits.length := by
    induction bits generalizing sum with
    | nil => simp
    | cons bit bits ih => rw [List.foldl_cons, ih, List.length_cons, Nat.add_comm bits.length,
        Int32.ofNat_add, Int32.add_assoc]; rfl
  rw [countBytes, positions]
  simp only [popAll_eq_bitsOf, increments]
  -- the induction is over the bytes, from the last one
  induction b.intWidth with
  | zero => rfl
  | succ count ih =>
    rw [List.range_succ, List.foldl_append, ih, List.flatMap_append, List.length_append,
      Int32.ofNat_add]
    simp

/-- Fewer than `2 ^ 31` set bits are counted without a wrap. -/
theorem toInt_countBytes (b : Bitmap) {bytes : ℕ → UInt8} (small : b.width.toNat < 2 ^ 31)
    (few : ((Finset.range (8 * b.width.toNat)).filter fun c => bitAt bytes c = true).card <
      2 ^ 31) :
    (b.countBytes bytes).toInt =
      ((Finset.range (8 * b.width.toNat)).filter fun c => bitAt bytes c = true).card := by
  rw [b.countBytes_eq, length_positions, intWidth, if_pos small,
    Int32.toInt_ofNat_of_lt few]

/-- A block of `capacity` bytes has no set position behind its end. -/
theorem length_positions_load_le {capacity : ℕ} (buffer : ByteMemory capacity) (count : ℕ) :
    (positions count buffer.load).length ≤ 8 * capacity := by
  rw [length_positions, ← Finset.card_range (8 * capacity)]
  apply Finset.card_le_card
  intro p set
  rw [Finset.mem_filter] at set
  rw [Finset.mem_range]
  by_contra behind
  rw [bitAt, buffer.load_of_ge (by omega), bitOf_zero] at set
  exact Bool.false_ne_true set.2

/-- Counting the bits of a small block gives no negative number. -/
theorem countMask_load_nonneg {capacity : ℕ} (b : Bitmap) (buffer : ByteMemory capacity)
    (small : 8 * capacity < 2 ^ 31) : 0 ≤ (b.countMask buffer.load).toInt := by
  have few := length_positions_load_le buffer b.intWidth
  rw [countMask, b.countBytes_eq, Int32.toInt_ofNat_of_lt (by omega)]
  exact Int.natCast_nonneg _

theorem countBytes_congr (b : Bitmap) {first second : ℕ → UInt8}
    (same : ∀ i < b.width.toNat, first i = second i) :
    b.countBytes first = b.countBytes second := by
  apply List.foldl_ext
  intro sum i member
  rw [same i ((List.mem_range.mp member).trans_le b.intWidth_le)]

end Count

end Bitmap

end FlowRetrieval
