/-
# The halves of the compute buffer

`GetTarget` keeps the intersection of the groups so far in the half of the buffer at `ptr1`
and unites a later group in the half at `ptr2`. The size of a half is a constant, and a row
is as wide as the samples need. Here `GetTarget` runs on a memory that records its stores.

## Main results

* `Targeting.memory_tracedTarget` — the recorded run is `GetTarget`
* `Targeting.halves_tracedTarget_iff` — the stores keep to their halves exactly when a row
  fits in one
-/
import FlowRetrieval.CS.TracedMemory
import FlowRetrieval.Index.BidBitmap
import FlowRetrieval.Service.Targeting

namespace FlowRetrieval

open CS

namespace Bitmap

variable {capacity : ℕ}

/-- `Bitmap.combine` with a record of its stores. -/
def tracedCombine (op : UInt8 → UInt8 → UInt8) (b : Bitmap) (first second : Operand)
    (result : ℕ) (buffer : TracedMemory capacity) : TracedMemory capacity :=
  buffer.sweep
    (fun current k => op (b.operandByte current first k) (b.operandByte current second k))
    result (8 * b.getBound)

/-- `Bitmap.orGroup` with a record of its stores. -/
def tracedOrGroup (b : Bitmap) (result : ℕ) (group : List Int32)
    (buffer : TracedMemory capacity) : TracedMemory capacity :=
  match group with
  | [] => buffer
  | [row] => b.tracedCombine (· ||| ·) (.row row.toUInt32) (.row row.toUInt32) result buffer
  | first :: second :: rows =>
    rows.foldl
      (fun current row =>
        b.tracedCombine (· ||| ·) (.row row.toUInt32) (.ptr result) result current)
      (b.tracedCombine (· ||| ·) (.row first.toUInt32) (.row second.toUInt32) result buffer)

variable (b : Bitmap) (result : ℕ) (traced : TracedMemory capacity)

@[simp]
theorem memory_tracedCombine (op : UInt8 → UInt8 → UInt8) (first second : Operand) :
    (b.tracedCombine op first second result traced).memory =
      b.combine op first second result traced.memory :=
  TracedMemory.memory_sweep _ _ _ _

theorem memory_tracedOrGroup (group : List Int32) :
    (b.tracedOrGroup result group traced).memory = b.orGroup result group traced.memory := by
  match group with
  | [] => rfl
  | [row] => exact b.memory_tracedCombine result traced _ _ _
  | first :: second :: rows =>
    rw [tracedOrGroup, orGroup]
    induction rows using List.reverseRecOn with
    | nil => exact b.memory_tracedCombine result traced _ _ _
    | append_singleton rows row ih =>
      rw [List.foldl_append, List.foldl_append, ← ih]
      exact b.memory_tracedCombine result _ _ _ _

/-- The stores of one row operation: a row, in whole words. -/
def RowStore (made : Store) : Prop :=
  made.base = result ∧ made.address ∈ Set.Ico result (result + 8 * b.getBound)

variable {b result traced}

theorem mem_stores_tracedCombine {op : UInt8 → UInt8 → UInt8} {first second : Operand}
    {made : Store} : made ∈ (b.tracedCombine op first second result traced).stores ↔
      made ∈ traced.stores ∨ b.RowStore result made :=
  TracedMemory.mem_stores_sweep _ _

/-- However long a group is, uniting it stores to one row. -/
theorem mem_stores_tracedOrGroup {group : List Int32} (nonempty : group ≠ []) {made : Store} :
    made ∈ (b.tracedOrGroup result group traced).stores ↔
      made ∈ traced.stores ∨ b.RowStore result made := by
  match group with
  | [row] => exact mem_stores_tracedCombine
  | first :: second :: rows =>
    clear nonempty
    rw [tracedOrGroup]
    induction rows using List.reverseRecOn with
    | nil => exact mem_stores_tracedCombine
    | append_singleton rows row ih =>
      rw [List.foldl_append]
      refine mem_stores_tracedCombine.trans ((or_congr_left ih).trans ?_)
      rw [or_assoc, or_self]

end Bitmap

namespace Targeting

/-- `andGroup` with a record of its stores. -/
def tracedAndGroup (b : Bitmap) (buffer : TracedMemory (computeBufferSize * 2)) :
    List Int32 → TracedMemory (computeBufferSize * 2)
  | [] => buffer
  | [row] => b.tracedCombine (· &&& ·) (.row row.toUInt32) (.ptr ptr1) ptr1 buffer
  | first :: second :: rows =>
    b.tracedCombine (· &&& ·) (.ptr ptr1) (.ptr ptr2) ptr1
      (b.tracedOrGroup ptr2 (first :: second :: rows) buffer)

/-- `GetTarget` with a record of its stores. -/
def tracedTarget (b : Bitmap) (targetings : List (List Int32))
    (buffer : TracedMemory (computeBufferSize * 2)) : TracedMemory (computeBufferSize * 2) :=
  match targetings with
  | [] => buffer.fill 0xff ptr1 b.width.toNat
  | group :: groups => groups.foldl (tracedAndGroup b) (b.tracedOrGroup ptr1 group buffer)

variable (b : Bitmap) (traced : TracedMemory (computeBufferSize * 2))

theorem memory_tracedAndGroup (group : List Int32) :
    (tracedAndGroup b traced group).memory = andGroup b traced.memory group := by
  match group with
  | [] => rfl
  | [row] => exact b.memory_tracedCombine ptr1 traced _ _ _
  | first :: second :: rows =>
    rw [tracedAndGroup, andGroup, b.memory_tracedCombine, b.memory_tracedOrGroup]
    rfl

/-- The recorded run is `GetTarget`. -/
theorem memory_tracedTarget (targetings : List (List Int32)) :
    (tracedTarget b targetings traced).memory = target b targetings traced.memory := by
  cases targetings with
  | nil => exact TracedMemory.memory_sweep _ _ _ _
  | cons group groups =>
    rw [tracedTarget, target, ← b.memory_tracedOrGroup]
    generalize b.tracedOrGroup ptr1 group traced = current
    induction groups generalizing current with
    | nil => rfl
    | cons next groups ih =>
      rw [List.foldl_cons, List.foldl_cons, ← memory_tracedAndGroup]
      exact ih _

/-- What is stored through `ptr1` is in the first half of the buffer and what is stored
through `ptr2` in the second, so that the halves do not overlap and no store leaves the
buffer. -/
structure Halves (stores : List Store) : Prop where
  first : ∀ made ∈ stores, made.base = ptr1 → made.address < computeBufferSize
  second : ∀ made ∈ stores, made.base = ptr2 →
    computeBufferSize ≤ made.address ∧ made.address < computeBufferSize * 2
  apart : ∀ made ∈ stores, ∀ other ∈ stores, made.base = ptr1 → other.base = ptr2 →
    made.address ≠ other.address
  inside : ∀ made ∈ stores, made.address < computeBufferSize * 2

variable {b traced}

/-- Stores to rows at the two pointers keep to their halves when a row fits in one. -/
theorem Halves.of_rows {stores : List Store} (fits : b.width.toNat ≤ computeBufferSize)
    (rows : ∀ made ∈ stores, b.RowStore ptr1 made ∨ b.RowStore ptr2 made) : Halves stores := by
  have bound := bound_le b fits
  have size : 0 < computeBufferSize := by decide
  simp only [Bitmap.RowStore, ptr1, ptr2, Set.mem_Ico] at rows
  constructor
  · intro made member through
    have := rows made member
    rw [ptr1] at through
    omega
  · intro made member through
    have := rows made member
    rw [ptr2] at through
    omega
  · intro made member other otherMember through otherThrough
    have := rows made member
    have := rows other otherMember
    rw [ptr1] at through
    rw [ptr2] at otherThrough
    omega
  · intro made member
    have := rows made member
    omega

theorem rows_tracedAndGroup (group : List Int32)
    (rows : ∀ made ∈ traced.stores, b.RowStore ptr1 made ∨ b.RowStore ptr2 made) :
    ∀ made ∈ (tracedAndGroup b traced group).stores,
      b.RowStore ptr1 made ∨ b.RowStore ptr2 made := by
  intro made member
  match group with
  | [] => exact rows made member
  | [row] =>
    rcases Bitmap.mem_stores_tracedCombine.mp member with earlier | here
    · exact rows made earlier
    · exact .inl here
  | first :: second :: more =>
    rcases Bitmap.mem_stores_tracedCombine.mp member with united | here
    · rcases (Bitmap.mem_stores_tracedOrGroup (List.cons_ne_nil _ _)).mp united with
        earlier | there
      · exact rows made earlier
      · exact .inr there
    · exact .inl here

theorem subset_tracedAndGroup (group : List Int32) :
    traced.stores ⊆ (tracedAndGroup b traced group).stores := by
  intro made member
  match group with
  | [] => exact member
  | [row] => exact Bitmap.mem_stores_tracedCombine.mpr (.inl member)
  | first :: second :: more =>
    exact Bitmap.mem_stores_tracedCombine.mpr
      (.inl ((Bitmap.mem_stores_tracedOrGroup (List.cons_ne_nil _ _)).mpr (.inl member)))

section Rows

variable (b) {group : List Int32} (nonempty : group ≠ []) (groups : List (List Int32))
  (buffer : ComputeBuffer)

include nonempty

/-- With a targeting every store is to a row at one of the pointers. -/
theorem rows_tracedTarget :
    ∀ made ∈ (tracedTarget b (group :: groups) (.start buffer)).stores,
      b.RowStore ptr1 made ∨ b.RowStore ptr2 made := by
  rw [tracedTarget]
  induction groups using List.reverseRecOn with
  | nil =>
    intro made member
    rcases (Bitmap.mem_stores_tracedOrGroup nonempty).mp member with none | here
    · cases none
    · exact .inl here
  | append_singleton groups next ih =>
    rw [List.foldl_append]
    exact rows_tracedAndGroup next ih

/-- And each byte of a row at `ptr1` is stored to. -/
theorem rowStore_mem_tracedTarget {made : Store} (here : b.RowStore ptr1 made) :
    made ∈ (tracedTarget b (group :: groups) (.start buffer)).stores := by
  rw [tracedTarget]
  induction groups using List.reverseRecOn with
  | nil => exact (Bitmap.mem_stores_tracedOrGroup nonempty).mpr (.inr here)
  | append_singleton groups next ih =>
    rw [List.foldl_append]
    exact subset_tracedAndGroup next ih

end Rows

/-- The stores keep to their halves exactly when a row fits in one of them, whatever the
targeting is. -/
theorem halves_tracedTarget_iff (b : BidBitmap) (getTargetId : Str → Int32)
    (targetings : List (List Str)) (buffer : ComputeBuffer) :
    Halves (tracedTarget b.toBitmap (encode getTargetId targetings) (.start buffer)).stores ↔
      b.width.toNat ≤ computeBufferSize := by
  have bound := b.width_le_bound
  cases encoded : encode getTargetId targetings with
  | nil =>
    -- `memset` stores to the bytes of the width
    have stores {made : Store} : made ∈ (tracedTarget b.toBitmap [] (.start buffer)).stores ↔
        made ∈ ([] : List Store) ∨ made.base = ptr1 ∧
          made.address ∈ Set.Ico ptr1 (ptr1 + b.width.toNat) :=
      TracedMemory.mem_stores_sweep _ _
    constructor
    · intro halves
      by_contra wide
      have last := halves.first ⟨ptr1, computeBufferSize⟩
        (stores.mpr (.inr ⟨rfl, Set.mem_Ico.mpr (by unfold ptr1; dsimp only; omega)⟩)) rfl
      exact Nat.lt_irrefl _ last
    · intro fits
      apply Halves.of_rows fits
      intro made member
      rcases stores.mp member with none | ⟨through, within⟩
      · cases none
      · exact .inl ⟨through, Set.Ico_subset_Ico_right (by omega) within⟩
  | cons group groups =>
    have nonempty : group ≠ [] :=
      ne_nil_of_mem_encode (encoded ▸ List.mem_cons_self)
    constructor
    · intro halves
      by_contra wide
      have last := halves.first ⟨ptr1, computeBufferSize⟩
        (rowStore_mem_tracedTarget b.toBitmap nonempty groups buffer
          ⟨rfl, Set.mem_Ico.mpr (by unfold ptr1; dsimp only; omega)⟩) rfl
      exact Nat.lt_irrefl _ last
    · exact fun fits => Halves.of_rows fits (rows_tracedTarget b.toBitmap nonempty groups buffer)

/-- A generated bitmap has rows that fit in a half for up to eighty million samples. -/
theorem width_le_iff_of_generate {b : Bitmap} {cols : List (List UInt32)} {height : UInt32}
    (done : Bitmap.generate cols height = some b) :
    b.width.toNat ≤ computeBufferSize ↔ cols.length ≤ 80000000 := by
  have padded := Bitmap.width_of_generate done
  have size := Bitmap.size_of_generate done
  rw [computeBufferSize]
  omega

/-- `Generate` accepts one sample more, and `GetTarget` leaves the first half. -/
theorem exists_not_halves_tracedTarget :
    ∃ b, BidBitmap.generate ⟨Bitmap.clear, []⟩ (List.replicate 80000001 [])
        (List.replicate 80000001 0) 1 = some b ∧
      ∀ buffer, ¬ Halves (tracedTarget b.toBitmap (encode (fun _ => 0) [[[97]]])
        (.start buffer)).stores := by
  have accepted : (BidBitmap.generate ⟨Bitmap.clear, []⟩ (List.replicate 80000001 [])
      (List.replicate 80000001 0) 1).isSome := by
    rw [BidBitmap.isSome_generate_iff, Bitmap.isSome_generate_iff, List.length_replicate,
      List.length_replicate]
    have column : ∀ col ∈ List.replicate 80000001 ([] : List UInt32), col = [] :=
      fun col member => List.eq_of_mem_replicate member
    refine ⟨⟨by norm_num, fun col member => ?_, fun col member => ?_⟩, rfl⟩
    · rw [column col member]
      norm_num
    · rw [column col member]
      exact List.forall_mem_nil _
  obtain ⟨b, done⟩ := Option.isSome_iff_exists.mp accepted
  refine ⟨b, done, fun buffer halves => ?_⟩
  have wide : computeBufferSize < b.width.toNat := by
    rw [← not_le, width_le_iff_of_generate (BidBitmap.generate_eq_some done).1,
      List.length_replicate]
    norm_num
  have bound := b.width_le_bound
  have first := halves.first ⟨ptr1, computeBufferSize⟩
    (rowStore_mem_tracedTarget b.toBitmap (List.cons_ne_nil 0 []) [] buffer
      ⟨rfl, Set.mem_Ico.mpr (by unfold ptr1; dsimp only; omega)⟩) rfl
  exact Nat.lt_irrefl _ first

end Targeting

end FlowRetrieval
