/-
# Targeting

A query names targets in groups, and a sample qualifies when it has one of the known
targets of every group that has any. `EncodeTargeting` replaces names by row ids and drops
unknown names and groups left empty. `GetTarget` unites the rows of each group and
intersects the groups in the two halves of a compute buffer.

## Main results

* `Targeting.all_encode_iff` — the encoded groups select the samples that qualify
* `Targeting.bitAt_target` — `GetTarget` leaves the columns that every group selects
* `Targeting.eqOn_target` — what the buffer held before does not matter
-/
import FlowRetrieval.Common.Bitmap
import FlowRetrieval.Util.StringExt

namespace FlowRetrieval

open CS CS.BitPacking

namespace Targeting

section Encode

/-- The loops of `EncodeTargeting`. -/
def encode (getTargetId : Str → Int32) (targetings : List (List Str)) : List (List Int32) :=
  -- unknown names have the id -1
  let arrays := targetings.map fun names => (names.map getTargetId).filter fun idx => 0 ≤ idx
  -- `ignore null group`
  arrays.filter fun array => !array.isEmpty

/-- For every group with a known name the sample has one of the known names of the group. -/
def Qualifies (getTargetId : Str → Int32) (targetings : List (List Str))
    (targets : List UInt32) : Prop :=
  ∀ names ∈ targetings, (∃ name ∈ names, 0 ≤ getTargetId name) →
    ∃ name ∈ names, 0 ≤ getTargetId name ∧ (getTargetId name).toUInt32 ∈ targets

instance Qualifies.decidable (getTargetId : Str → Int32) (targetings : List (List Str))
    (targets : List UInt32) : Decidable (Qualifies getTargetId targetings targets) :=
  inferInstanceAs (Decidable (∀ names ∈ targetings, (∃ name ∈ names, 0 ≤ getTargetId name) →
    ∃ name ∈ names, 0 ≤ getTargetId name ∧ (getTargetId name).toUInt32 ∈ targets))

variable {getTargetId : Str → Int32} {targetings : List (List Str)}

theorem mem_encode {array : List Int32} :
    array ∈ encode getTargetId targetings ↔
      (∃ names ∈ targetings,
        (names.map getTargetId).filter (fun idx => decide (0 ≤ idx)) = array) ∧ array ≠ [] := by
  simp [encode]

theorem ne_nil_of_mem_encode {array : List Int32}
    (member : array ∈ encode getTargetId targetings) : array ≠ [] :=
  (mem_encode.mp member).2

theorem rows_of_all {targetings : List (List Int32)} {height : UInt32}
    (below : targetings.all fun array => array.all fun row => row.toUInt32 < height) :
    ∀ array ∈ targetings, ∀ row ∈ array, row.toUInt32 < height := by
  simpa using below

/-- A sample is selected by every encoded group iff it qualifies. -/
theorem all_encode_iff (targets : List UInt32) :
    ((encode getTargetId targetings).all fun array =>
        array.any fun row => decide (row.toUInt32 ∈ targets)) = true ↔
      Qualifies getTargetId targetings targets := by
  simp only [List.all_eq_true, List.any_eq_true, decide_eq_true_eq, Qualifies]
  constructor
  -- a group with a known name is encoded, and a row that selects the sample is the id of a
  -- known name
  · rintro selected names member ⟨name, inside, known⟩
    have kept : getTargetId name ∈
        (names.map getTargetId).filter fun idx => decide (0 ≤ idx) := by
      simpa using ⟨⟨name, inside, rfl⟩, known⟩
    obtain ⟨row, rowKept, has⟩ :=
      selected _ (mem_encode.mpr ⟨⟨names, member, rfl⟩, List.ne_nil_of_mem kept⟩)
    simp only [List.mem_filter, List.mem_map, decide_eq_true_eq] at rowKept
    obtain ⟨⟨other, otherInside, rfl⟩, otherKnown⟩ := rowKept
    exact ⟨other, otherInside, otherKnown, has⟩
  · intro qualifies array member
    obtain ⟨⟨names, inside, rfl⟩, nonempty⟩ := mem_encode.mp member
    obtain ⟨row, rowKept⟩ := List.exists_mem_of_ne_nil _ nonempty
    simp only [List.mem_filter, List.mem_map, decide_eq_true_eq] at rowKept
    obtain ⟨⟨name, nameInside, rfl⟩, known⟩ := rowKept
    obtain ⟨other, otherInside, otherKnown, has⟩ :=
      qualifies names inside ⟨name, nameInside, known⟩
    exact ⟨getTargetId other, by simpa using ⟨⟨other, otherInside, rfl⟩, otherKnown⟩, has⟩

/-- With effective targeting a column without targets, such as padding, does not qualify. -/
theorem not_qualifies_nil (targeted : encode getTargetId targetings ≠ []) :
    ¬ Qualifies getTargetId targetings [] := by
  rw [← all_encode_iff]
  obtain ⟨array, rest, encoded⟩ := List.exists_cons_of_ne_nil targeted
  simp [encoded]

end Encode

/-- `compute_buffer_size`. -/
def computeBufferSize : ℕ := 10000000

/-- The block of `compute_buf_`, which has two halves. -/
abbrev ComputeBuffer := ByteMemory (computeBufferSize * 2)

/-- `compute_buf_`. -/
def ptr1 : ℕ := 0

/-- `compute_buf_ + compute_buffer_size`. -/
def ptr2 : ℕ := computeBufferSize

/-- The body of the loop of `GetTarget` over the groups after the first. -/
def andGroup (b : Bitmap) (buffer : ComputeBuffer) : List Int32 → ComputeBuffer
  | [] => buffer
  -- a group of one row needs no second half
  | [row] => b.andRow row.toUInt32 ptr1 ptr1 buffer
  | first :: second :: rows =>
    b.andBuffers ptr1 ptr2 ptr1 (b.orGroup ptr2 (first :: second :: rows) buffer)

/-- `GetTarget`. -/
def target (b : Bitmap) (targetings : List (List Int32)) (buffer : ComputeBuffer) :
    ComputeBuffer :=
  match targetings with
  | [] => buffer.fill 0xff ptr1 b.width.toNat
  | group :: groups => groups.foldl (andGroup b) (b.orGroup ptr1 group buffer)

section Spec

variable (b : Bitmap) (buffer : ComputeBuffer) {c : ℕ}

/-- The columns of row bytes that begin at `ptr1`. -/
theorem bitAt_ptr1 (memory : ComputeBuffer) :
    bitAt (fun k => memory.load (ptr1 + k)) c = bitAt memory.load c := by
  simp only [ptr1, Nat.zero_add]

/-- Rows that fit in one half of the buffer fit in whole words. -/
theorem bound_le (fits : b.width.toNat ≤ computeBufferSize) :
    8 * b.getBound ≤ computeBufferSize := by
  rw [b.getBound_eq]
  unfold computeBufferSize at *
  omega

/-- A further group of one row keeps the columns of the row. -/
theorem bitAt_andGroup_single (row : Int32) (inside : c < 8 * b.width.toNat)
    (reached : c / 8 < computeBufferSize * 2) :
    bitAt (andGroup b buffer [row]).load c =
      (bitAt buffer.load c && b.cell row.toUInt32 c) := by
  have step : bitAt (fun k => (b.andRow row.toUInt32 ptr1 ptr1 buffer).load (ptr1 + k)) c =
      (b.cell row.toUInt32 c && bitAt (fun k => buffer.load (ptr1 + k)) c) :=
    Bitmap.bitAt_combine bitOf_and b (x := .row row.toUInt32) (y := .ptr ptr1) buffer trivial
      (.inl rfl) inside (by unfold ptr1; omega)
  rw [bitAt_ptr1, bitAt_ptr1] at step
  rw [andGroup, step, Bool.and_comm]

variable (fits : b.width.toNat ≤ computeBufferSize) (inside : c < 8 * b.width.toNat)
include fits inside

/-- A further group keeps the columns that it selects. -/
theorem bitAt_andGroup {group : List Int32} (nonempty : group ≠ []) :
    bitAt (andGroup b buffer group).load c =
      (bitAt buffer.load c && group.any fun row => b.cell row.toUInt32 c) := by
  match group with
  | [row] =>
    rw [bitAt_andGroup_single b buffer row inside (by omega)]
    simp
  | first :: second :: rows =>
    -- uniting the group at `ptr2` leaves the first half alone
    have untouched : bitAt (b.orGroup ptr2 (first :: second :: rows) buffer).load c =
        bitAt buffer.load c := by
      refine bitAt_congr (b.load_orGroup_of_notMem _ buffer ?_)
      intro member
      rw [Set.mem_Ico] at member
      rw [ptr2] at member
      omega
    have step := Bitmap.bitAt_combine bitOf_and b (x := .ptr ptr1) (y := .ptr ptr2)
      (b.orGroup ptr2 (first :: second :: rows) buffer) (.inl rfl)
      (.inr (.inr (by have := bound_le b fits; unfold ptr1 ptr2; omega))) inside
      (by unfold ptr1; omega)
    have united := b.bitAt_orGroup ptr2 buffer nonempty inside (by unfold ptr2; omega)
    rw [bitAt_ptr1] at step
    apply step.trans
    rw [← united, ← untouched, ← bitAt_ptr1]
    rfl

/-- `GetTarget` leaves the columns that every group selects. -/
theorem bitAt_target {targetings : List (List Int32)} (nonempty : targetings ≠ [])
    (groups : ∀ group ∈ targetings, group ≠ []) :
    bitAt (target b targetings buffer).load c =
      targetings.all fun group => group.any fun row => b.cell row.toUInt32 c := by
  obtain ⟨group, rest, rfl⟩ := List.exists_cons_of_ne_nil nonempty
  rw [List.forall_mem_cons] at groups
  have first := b.bitAt_orGroup ptr1 buffer groups.1 inside (by unfold ptr1; omega)
  rw [bitAt_ptr1] at first
  rw [target, List.all_cons, ← first]
  generalize b.orGroup ptr1 group buffer = current
  have later := groups.2
  clear first groups nonempty
  -- the accumulated columns are those that all groups so far select
  induction rest generalizing current with
  | nil => simp
  | cons next rest ih =>
    rw [List.forall_mem_cons] at later
    rw [List.foldl_cons, ih _ later.2, bitAt_andGroup b current fits inside later.1,
      List.all_cons, Bool.and_assoc]

end Spec

section Congruence

variable (b : Bitmap) {first second : ComputeBuffer}

/-- The addresses of a row at `ptr1`. -/
def rowRegion (b : Bitmap) : Set ℕ := Set.Ico ptr1 (ptr1 + 8 * b.getBound)

theorem eqOn_andGroup (group : List Int32)
    (agree : Set.EqOn first.load second.load (rowRegion b)) :
    Set.EqOn (andGroup b first group).load (andGroup b second group).load (rowRegion b) := by
  match group with
  | [] => exact agree
  | [row] =>
    exact (b.eqOn_combine _ ptr1 (Set.empty_subset _) subset_rfl agree).mono
      Set.subset_union_left
  | x :: y :: rows =>
    have united := b.eqOn_orGroup ptr2 (List.cons_ne_nil x (y :: rows)) agree
    exact (b.eqOn_combine _ ptr1 Set.subset_union_left Set.subset_union_right united).mono
      (Set.subset_union_left.trans Set.subset_union_left)

/-- The bytes of a row at `ptr1` that `GetTarget` leaves do not depend on what the buffer
held before. -/
theorem eqOn_target {targetings : List (List Int32)} (groups : ∀ group ∈ targetings, group ≠ [])
    (first second : ComputeBuffer) :
    Set.EqOn (target b targetings first).load (target b targetings second).load
      (Set.Ico ptr1 (ptr1 + b.width.toNat)) := by
  cases targetings with
  | nil => exact ByteMemory.eqOn_fill _ _ _ first second
  | cons group rest =>
    have begun : Set.EqOn (b.orGroup ptr1 group first).load (b.orGroup ptr1 group second).load
        (rowRegion b) :=
      (b.eqOn_orGroup ptr1 (groups group List.mem_cons_self) (Set.eqOn_empty _ _)).mono
        Set.subset_union_right
    have whole : Set.EqOn (target b (group :: rest) first).load
        (target b (group :: rest) second).load (rowRegion b) := by
      rw [target, target]
      generalize b.orGroup ptr1 group first = m₁ at begun
      generalize b.orGroup ptr1 group second = m₂ at begun
      clear groups
      induction rest generalizing m₁ m₂ with
      | nil => exact begun
      | cons next rest ih => exact ih _ _ (eqOn_andGroup b next begun)
    exact whole.mono (Set.Ico_subset_Ico_right (Nat.add_le_add_left b.width_le_bound _))

end Congruence

end Targeting

end FlowRetrieval
