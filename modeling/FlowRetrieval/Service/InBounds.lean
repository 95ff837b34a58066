/-
# Requests in bounds

`GetTarget` and `Union` combine the rows that a dictionary names in a buffer of fixed size, and
`Count` reads a bid for every bit of the mask they leave. None of them compares what it is given
with the sizes of the vectors and blocks it uses. The bounds of a request are the conditions
under which they stay inside, and inside them no word of the heap shows in a report.

## Main results

* `BidBitmap.Readable.inside_target` — after `GetTarget`, `Count` reads nothing but bids
* `InBounds.report_eq` — the report of a request in bounds does not depend on the heap
-/
import FlowRetrieval.Index.AcceptedStream
import FlowRetrieval.Service.Report
import FlowRetrieval.Service.Retrieval

namespace FlowRetrieval

open CS CS.BitPacking Targeting

namespace BidBitmap

/-- `GetTarget` and `Count` stay inside a bitmap and inside a mask of `limit` bytes: the bitmap
is consistent and has a bid for each sample, the encoded targeting names its rows and, unless
the samples fill whole words, selects among them. -/
structure Readable (b : BidBitmap) (targetings : List (List Int32)) (limit : ℕ) : Prop where
  consistent : b.toBitmap.Consistent
  paired : b.bids.length = b.size.toNat
  rows : ∀ array ∈ targetings, ∀ row ∈ array, row.toUInt32 < b.height
  narrow : b.width.toNat ≤ limit
  selective : targetings ≠ [] ∨ 64 ∣ b.size.toNat

variable {b : BidBitmap} {targetings : List (List Int32)}

theorem Readable.mono {limit limit' : ℕ} (readable : b.Readable targetings limit)
    (le : limit ≤ limit') : b.Readable targetings limit' :=
  { readable with narrow := readable.narrow.trans le }

theorem Readable.of_lt {limit : ℕ} (readable : b.Readable targetings limit)
    (narrow : limit < computeBufferSize + 8) : b.Readable targetings computeBufferSize :=
  { readable with
    narrow := by
      have padded := readable.consistent.padded
      have below := readable.narrow
      rw [Bitmap.Padded] at padded
      rw [computeBufferSize] at narrow ⊢
      omega }

/-- The mask that `GetTarget` leaves selects samples only. -/
theorem Readable.lt_size (readable : b.Readable targetings computeBufferSize)
    (groups : ∀ group ∈ targetings, group ≠ []) (buffer : ComputeBuffer) {p : ℕ}
    (visited : p ∈ b.visited (target b.toBitmap targetings buffer).load) : p < b.size.toNat := by
  have narrow := readable.narrow
  have padded := readable.consistent.padded
  rw [Bitmap.Padded] at padded
  rw [computeBufferSize] at narrow
  rw [mem_visited (by omega)] at visited
  obtain ⟨within, set⟩ := visited
  by_cases targeted : targetings = []
  · -- the whole row is selected, and it has no padding
    have whole := readable.selective.resolve_left (not_not_intro targeted)
    omega
  · rw [bitAt_target b.toBitmap buffer readable.narrow within targeted groups,
      List.all_eq_true] at set
    -- a selected column has a bit in some row, which the padding has not
    obtain ⟨group, rest, rfl⟩ := List.exists_cons_of_ne_nil targeted
    obtain ⟨row, member, cell⟩ := List.any_eq_true.mp (set group List.mem_cons_self)
    have inside := readable.rows group List.mem_cons_self row member
    by_contra behind
    have blank := readable.consistent.blank _ inside p within (Nat.not_lt.mp behind)
    exact Bool.false_ne_true (blank.symm.trans cell)

/-- After `GetTarget`, `Count` reads nothing but bids. -/
theorem Readable.inside_target (readable : b.Readable targetings computeBufferSize)
    (groups : ∀ group ∈ targetings, group ≠ []) (buffer : ComputeBuffer) :
    b.Inside (target b.toBitmap targetings buffer).load := by
  have narrow := readable.narrow
  have padded := readable.consistent.padded
  rw [Bitmap.Padded] at padded
  rw [computeBufferSize] at narrow
  exact inside_of_lt_size readable.paired (by omega) fun p visited =>
    readable.lt_size groups buffer visited

end BidBitmap

/-- `Union` and `Count` stay inside a merge bitmap and inside the buffer. -/
structure UvMergeBitmap.Readable (m : UvMergeBitmap) (psids : List Str) : Prop where
  consistent : m.toBitmap.Consistent
  rows : ∀ row ∈ RequestHandler.mergeRows m psids, row.toUInt32 < m.height
  narrow : m.width.toNat ≤ computeBufferSize * 2

variable {R : Type}

/-- All bitmaps that a request uses are readable, and the rows of its bid bitmaps have at most
`limit` bytes. -/
structure InBounds (limit : ℕ) (memory : SharedMemory R) (qd : QueryData) : Prop where
  pv : ∀ psid ∈ qd.psids, ∀ b, memory.getIndex.getPvBidBitmap psid = some b →
    b.toBidBitmap.Readable (Report.targetings memory qd) limit
  uv : ∀ psid ∈ qd.psids, ∀ b, memory.getIndex.getUvBidBitmap psid = some b →
    b.toBidBitmap.Readable (Report.targetings memory qd) limit
  merge : ∀ m, memory.getIndex.getUvMergeBitmap = some m → m.Readable qd.psids

namespace InBounds

variable {memory : SharedMemory R} {qd : QueryData}

theorem mono {limit limit' : ℕ} (bounded : InBounds limit memory qd) (le : limit ≤ limit') :
    InBounds limit' memory qd where
  pv psid member b found := (bounded.pv psid member b found).mono le
  uv psid member b found := (bounded.uv psid member b found).mono le
  merge := bounded.merge

/-- Rows are whole words, so that a limit of less than one word more is none. -/
theorem of_lt {limit : ℕ} (bounded : InBounds limit memory qd)
    (narrow : limit < computeBufferSize + 8) : InBounds computeBufferSize memory qd where
  pv psid member b found :=
    (bounded.pv psid member b found).of_lt narrow
  uv psid member b found :=
    (bounded.uv psid member b found).of_lt narrow
  merge := bounded.merge

/-- What `Count` finds in a readable bitmap does not depend on the heap. -/
theorem retrieve_eq {b : BidBitmap}
    (readable : b.Readable (Report.targetings memory qd) computeBufferSize)
    (heap heap' : HeapWords) :
    Report.retrieve memory qd heap b = Report.retrieve memory qd heap' b :=
  BidBitmap.count_of_inside
    (readable.inside_target (fun _ => ne_nil_of_mem_encode) Report.blank) _ _ _

variable [Double R] {lib : DoubleLib R}

theorem addPv_eq (bounded : InBounds computeBufferSize memory qd) {psid : Str}
    (member : psid ∈ qd.psids) (heap heap' : HeapWords) (acc : Accumulators R) :
    Report.addPv lib memory qd heap acc psid = Report.addPv lib memory qd heap' acc psid := by
  rw [Report.addPv, Report.addPv]
  cases found : memory.getIndex.getPvBidBitmap psid with
  | none => rfl
  | some pvMap =>
    simp only [retrieve_eq (bounded.pv psid member pvMap found) heap heap']

theorem addUv_eq (bounded : InBounds computeBufferSize memory qd) {psid : Str}
    (member : psid ∈ qd.psids) (heap heap' : HeapWords) (acc : Accumulators R) :
    Report.addUv memory qd heap acc psid = Report.addUv memory qd heap' acc psid := by
  rw [Report.addUv, Report.addUv]
  cases found : memory.getIndex.getUvBidBitmap psid with
  | none => rfl
  | some uvMap =>
    simp only [retrieve_eq (bounded.uv psid member uvMap found) heap heap']

theorem total_eq (bounded : InBounds computeBufferSize memory qd) (heap heap' : HeapWords)
    {psids : List Str} (inside : psids ⊆ qd.psids) (acc : Accumulators R) :
    Report.total lib memory qd heap acc psids = Report.total lib memory qd heap' acc psids := by
  apply List.foldl_ext
  intro acc psid member
  rw [bounded.addPv_eq (inside member) heap heap', bounded.addUv_eq (inside member) heap heap']

/-- The report of a request in bounds does not depend on the heap. -/
theorem report_eq (bounded : InBounds computeBufferSize memory qd) (heap heap' : HeapWords) :
    report lib memory qd heap = report lib memory qd heap' := by
  simp only [report, bounded.total_eq heap heap' (List.Subset.refl _)]

section Single

open RequestHandler

theorem consistent_single : Index.singleBitmap.Consistent :=
  BidBitmap.consistent_of_generate (generate_singleBid singleBid) (by decide)

/-- The one row of one sample is readable. -/
theorem readable_single : singleBid.Readable [[0]] computeBufferSize where
  consistent := consistent_single
  paired := rfl
  rows := rows_of_all (by decide)
  narrow := by decide
  selective := .inl (List.cons_ne_nil _ _)

theorem readable_singleMerge (psid : Str) (psids : List Str) :
    (Index.singleMerge psid).Readable psids where
  consistent := consistent_single
  rows row member := by
    obtain ⟨known, nonneg⟩ := List.mem_filter.mp member
    obtain ⟨other, -, rfl⟩ := List.mem_map.mp known
    -- a position without a row has the negative id, and the one with a row has the id 0
    have row : (Index.singleMerge psid).getRowId other =
        if other = psid then 0 else -1 := by
      rw [UvMergeBitmap.getRowId, Index.singleMerge, Dict.lookup_singleton]
      split <;> rfl
    have height : (Index.singleMerge psid).height = 1 := rfl
    rw [row] at nonneg ⊢
    rw [height]
    split
    · decide
    · rename_i apart
      rw [if_neg apart] at nonneg
      exact absurd nonneg (by decide)
  narrow := by
    have width : (Index.singleMerge psid).width = 8 := rfl
    rw [width]
    decide

/-- A query for the one row is in bounds where each bitmap is that of one sample. -/
theorem of_single {memory : SharedMemory ℚ} {qd : QueryData}
    (encoded : Report.targetings memory qd = [[0]])
    (pv : ∀ psid b, memory.getIndex.getPvBidBitmap psid = some b → b.toBidBitmap = singleBid)
    (uv : ∀ psid b, memory.getIndex.getUvBidBitmap psid = some b → b.toBidBitmap = singleBid)
    (merge : ∀ m, memory.getIndex.getUvMergeBitmap = some m → ∃ psid, m = Index.singleMerge psid) :
    InBounds computeBufferSize memory qd where
  pv psid _ b found := by
    rw [encoded, pv psid b found]
    exact readable_single
  uv psid _ b found := by
    rw [encoded, uv psid b found]
    exact readable_single
  merge m found := by
    obtain ⟨psid, rfl⟩ := merge m found
    exact readable_singleMerge psid qd.psids

end Single

end InBounds

end FlowRetrieval
