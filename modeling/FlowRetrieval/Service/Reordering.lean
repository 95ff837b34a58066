/-
# The order of a query

The groups of a query, the names of a group and the ad positions may stand in any order.
`GetTarget` treats the first group, the first two names of a group and groups of one name
in ways of their own, and `Union` the first two rows, but what they leave is the
intersection of unions, and in exact arithmetic the sums over the positions do not depend
on the order either. Uniting a group after the first one takes the second half of the
compute buffer, so that rows longer than a half are different: there the union of the group
replaces the end of the first group, and the order counts.

## Main results

* `RequestHandler.process_reordered` — a reordered query has the same report
* `RequestHandler.orderIndependent_iff` — how long the rows may be for that
-/
import FlowRetrieval.Service.Isolation
import Mathlib.Data.List.Perm.Basic

namespace FlowRetrieval

open CS CS.BitPacking Targeting RequestHandler

/-- The same groups, in another order and each of them in another order. -/
def SameGroups (first second : List (List Str)) : Prop :=
  ∃ groups, first.Perm groups ∧ List.Forall₂ List.Perm groups second

section Groups

variable {first second : List (List Str)} {getTargetId : Str → Int32}

theorem SameGroups.symm (same : SameGroups first second) : SameGroups second first := by
  obtain ⟨groups, perm, each⟩ := same
  obtain ⟨middle, back, perm'⟩ := List.perm_comp_forall₂ perm each
  exact ⟨middle, perm'.symm, back.flip.imp fun _ _ => List.Perm.symm⟩

/-- Every group stands on the other side as well. -/
theorem SameGroups.exists_perm (same : SameGroups first second) :
    ∀ names ∈ first, ∃ others ∈ second, names.Perm others := by
  obtain ⟨groups, perm, each⟩ := same
  intro names member
  have inside := perm.mem_iff.mp member
  clear perm member
  induction each with
  | nil => cases inside
  | cons head _ ih =>
    rcases List.mem_cons.mp inside with rfl | later
    · exact ⟨_, List.mem_cons_self, head⟩
    · obtain ⟨others, member, perm⟩ := ih later
      exact ⟨others, List.mem_cons_of_mem _ member, perm⟩

/-- Every encoded group has a counterpart with the same rows. -/
theorem SameGroups.exists_mem_encode (same : SameGroups first second) {array : List Int32}
    (member : array ∈ encode getTargetId first) :
    ∃ other ∈ encode getTargetId second, array.Perm other := by
  obtain ⟨⟨names, inside, rfl⟩, nonempty⟩ := mem_encode.mp member
  obtain ⟨others, otherInside, perm⟩ := same.exists_perm names inside
  have rows := (perm.map getTargetId).filter fun idx => decide (0 ≤ idx)
  refine ⟨_, mem_encode.mpr ⟨⟨others, otherInside, rfl⟩, fun none => ?_⟩, rows⟩
  rw [none] at rows
  exact nonempty rows.eq_nil

theorem SameGroups.encode_eq_nil (same : SameGroups first second)
    (none : encode getTargetId second = []) : encode getTargetId first = [] := by
  rw [List.eq_nil_iff_forall_not_mem]
  intro array member
  obtain ⟨other, inside, -⟩ := same.exists_mem_encode member
  rw [none] at inside
  cases inside

/-- A column that every group selects is selected by every group in the other order. -/
theorem SameGroups.all_encode (same : SameGroups first second) {selects : Int32 → Bool}
    (all : ((encode getTargetId second).all fun array => array.any selects) = true) :
    ((encode getTargetId first).all fun array => array.any selects) = true := by
  rw [List.all_eq_true] at all ⊢
  intro array member
  obtain ⟨other, inside, perm⟩ := same.exists_mem_encode member
  rw [perm.any_eq]
  exact all other inside

/-- `GetTarget` leaves the same row bytes when the row fits in half of the buffer. -/
theorem SameGroups.load_target (same : SameGroups first second) (b : Bitmap)
    (buffer : ComputeBuffer) (fits : b.width.toNat ≤ computeBufferSize) :
    ∀ i < b.width.toNat, (target b (encode getTargetId second) buffer).load i =
      (target b (encode getTargetId first) buffer).load i := by
  by_cases none : encode getTargetId first = []
  · -- then the other groups have no known name either
    rw [none, same.symm.encode_eq_nil none]
    exact fun _ _ => rfl
  · have some : encode getTargetId second ≠ [] := fun other => none (same.encode_eq_nil other)
    refine eq_of_bitAt fun c inside => ?_
    rw [bitAt_target b buffer fits inside some fun _ => ne_nil_of_mem_encode,
      bitAt_target b buffer fits inside none fun _ => ne_nil_of_mem_encode, Bool.eq_iff_iff]
    exact ⟨same.all_encode, same.symm.all_encode⟩

end Groups

section Sums

variable (lib : DoubleLib ℚ) (memory : SharedMemory ℚ) (qd : QueryData) (heap : HeapWords)

/-- Add the sums of other accumulators. -/
def Accumulators.plus (acc more : Accumulators ℚ) : Accumulators ℚ :=
  { acc with
    uvSum := acc.uvSum + more.uvSum
    pvSum := acc.pvSum + more.pvSum
    avgCtrWeightsSum := acc.avgCtrWeightsSum + more.avgCtrWeightsSum
    avgCtrWeightedSum := acc.avgCtrWeightedSum + more.avgCtrWeightedSum
    avgBidWeightsSum := acc.avgBidWeightsSum + more.avgBidWeightsSum
    avgBidWeightedSum := acc.avgBidWeightedSum + more.avgBidWeightedSum
    winRateWeightsSum := acc.winRateWeightsSum + more.winRateWeightsSum
    winRateWeightedSum := acc.winRateWeightedSum + more.winRateWeightedSum }

theorem Accumulators.plus_right_comm (acc first second : Accumulators ℚ) :
    (acc.plus first).plus second = (acc.plus second).plus first := by
  simp only [plus, add_right_comm]

namespace Report

theorem addPv_eq (acc : Accumulators ℚ) (psid : Str) :
    addPv lib memory qd heap acc psid = acc.plus (addPv lib memory qd heap .zero psid) := by
  unfold addPv
  cases memory.getIndex.getPvBidBitmap psid with
  | none => norm_num [Accumulators.plus, Accumulators.zero]
  | some pvMap => norm_num [Accumulators.plus, Accumulators.zero, Accumulators.accumulatePv]

theorem addUv_eq (acc : Accumulators ℚ) (psid : Str) :
    addUv memory qd heap acc psid = acc.plus (addUv memory qd heap .zero psid) := by
  unfold addUv
  cases memory.getIndex.getUvBidBitmap psid with
  | none => norm_num [Accumulators.plus, Accumulators.zero]
  | some uvMap =>
    by_cases useDelta : memory.getParam.uvUseDelta = true
    · norm_num [Accumulators.plus, Accumulators.zero, Accumulators.accumulateUv, useDelta]
    · norm_num [Accumulators.plus, Accumulators.zero, Accumulators.accumulateUv, useDelta]

/-- The sums over the positions do not depend on their order. -/
theorem total_perm {psids others : List Str} (perm : psids.Perm others) (acc : Accumulators ℚ) :
    total lib memory qd heap acc psids = total lib memory qd heap acc others := by
  have step (acc : Accumulators ℚ) (psid : Str) :
      addUv memory qd heap (addPv lib memory qd heap acc psid) psid =
        (acc.plus (addPv lib memory qd heap .zero psid)).plus (addUv memory qd heap .zero psid) := by
    rw [addUv_eq, addPv_eq]
  refine perm.foldl_eq' (fun first _ second _ acc => ?_) acc
  simp only [step]
  generalize addPv lib memory qd heap .zero first = a, addUv memory qd heap .zero first = b,
    addPv lib memory qd heap .zero second = c, addUv memory qd heap .zero second = d
  rw [(acc.plus a).plus_right_comm b c, acc.plus_right_comm a c,
    ((acc.plus c).plus a).plus_right_comm b d, (acc.plus c).plus_right_comm a d]

end Report

end Sums

section Rate

variable (m : UvMergeBitmap) {rows others : List Int32}

/-- The union of rows does not depend on their order, however long they are. -/
theorem load_union_perm (perm : rows.Perm others) (buffer : ComputeBuffer) :
    ∀ i < m.width.toNat,
      (m.union rows ptr1 buffer).load i = (m.union others ptr1 buffer).load i := by
  have united {rows : List Int32} (nonempty : rows ≠ []) {c : ℕ} (inside : c < 8 * m.width.toNat)
      (reached : c / 8 < computeBufferSize * 2) :
      bitAt (m.union rows ptr1 buffer).load c = rows.any fun row => m.cell row.toUInt32 c := by
    rw [← m.bitAt_orGroup ptr1 buffer nonempty inside (by unfold ptr1; omega), bitAt_ptr1]
    cases rows with
    | nil => exact absurd rfl nonempty
    | cons row rows => rfl
  cases rows with
  | nil =>
    rw [perm.nil_eq]
    exact fun _ _ => rfl
  | cons row rows =>
    have nonempty : others ≠ [] := fun none => by
      rw [none] at perm
      exact absurd perm.eq_nil (List.cons_ne_nil _ _)
    refine eq_of_bitAt fun c inside => ?_
    rcases Nat.lt_or_ge (c / 8) (computeBufferSize * 2) with reached | behind
    · rw [united (List.cons_ne_nil row rows) inside reached, united nonempty inside reached,
        perm.any_eq]
    -- behind the buffer both bytes are zero
    · exact bitAt_congr (by rw [ByteMemory.load_of_ge _ behind, ByteMemory.load_of_ge _ behind])

theorem sumRowUv_perm (perm : rows.Perm others) :
    (RequestHandler.sumRowUv m rows : ℚ) = RequestHandler.sumRowUv m others := by
  refine perm.foldl_eq' (fun first _ second _ sum => ?_) _
  dsimp only
  split <;> split <;> simp only [add_right_comm]

theorem uvMergeRate_perm (qd : QueryData) {targetings : List (List Str)} {psids : List Str}
    (perm : qd.psids.Perm psids) :
    (Report.uvMergeRate { qd with targetings := targetings, psids := psids } m : ℚ) =
      Report.uvMergeRate qd m := by
  have rows : (RequestHandler.mergeRows m qd.psids).Perm (RequestHandler.mergeRows m psids) :=
    (perm.map m.getRowId).filter _
  have counted := m.countBytes_congr (load_union_perm m rows Report.blank)
  simp only [Report.uvMergeRate, Bitmap.countMask, counted, sumRowUv_perm m rows]

end Rate

section Process

variable (lib : DoubleLib ℚ) (memory : SharedMemory ℚ) (qd : QueryData)

variable {groups : List (List Str)} (same : SameGroups qd.targetings groups) (psids : List Str)
  (heap : HeapWords)

include same

/-- What `Count` finds does not depend on the order of the groups. -/
theorem retrieve_reordered {b : BidBitmap} (fits : b.width.toNat ≤ computeBufferSize) :
    Report.retrieve memory { qd with targetings := groups, psids := psids } heap b =
      Report.retrieve memory qd heap b :=
  b.count_congr _ _ (same.load_target b.toBitmap Report.blank fits)

theorem total_reordered (bounded : InBounds computeBufferSize memory qd) {listed : List Str}
    (inside : listed ⊆ qd.psids) (acc : Accumulators ℚ) :
    Report.total lib memory { qd with targetings := groups, psids := psids } heap acc listed =
      Report.total lib memory qd heap acc listed := by
  refine List.foldl_ext _ _ acc fun acc psid member => ?_
  have pv : Report.addPv lib memory { qd with targetings := groups, psids := psids } heap acc psid =
      Report.addPv lib memory qd heap acc psid := by
    unfold Report.addPv
    cases found : memory.getIndex.getPvBidBitmap psid with
    | none => rfl
    | some pvMap =>
      have narrow := (bounded.pv psid (inside member) pvMap found).narrow
      simp only [retrieve_reordered memory qd same psids heap narrow]
      rfl
  have uv (acc : Accumulators ℚ) :
      Report.addUv memory { qd with targetings := groups, psids := psids } heap acc psid =
        Report.addUv memory qd heap acc psid := by
    unfold Report.addUv
    cases found : memory.getIndex.getUvBidBitmap psid with
    | none => rfl
    | some uvMap =>
      have narrow := (bounded.uv psid (inside member) uvMap found).narrow
      simp only [retrieve_reordered memory qd same psids heap narrow]
  rw [pv, uv]

namespace RequestHandler

/-- A query in bounds with the same groups and the same positions in another order has the same
results, and both requests end the process or neither. -/
theorem process_reordered {psids : List Str} (perm : qd.psids.Perm psids)
    (bounded : InBounds computeBufferSize memory qd) (heap heap' : HeapWords)
    (self other : RequestHandler ℚ) :
    (self.process lib memory { qd with targetings := groups, psids := psids } heap).map
        RequestHandler.toAccumulators =
      (other.process lib memory qd heap').map RequestHandler.toAccumulators := by
  rw [toAccumulators_process, toAccumulators_process, ← bounded.report_eq heap heap', report,
    report]
  refine congrFun (congrArg Option.map (funext fun uvMergeMap => ?_)) _
  have start : (Report.start { qd with targetings := groups, psids := psids } uvMergeMap :
      Accumulators ℚ) = Report.start qd uvMergeMap := by
    rw [Report.start, Report.start, uvMergeRate_perm uvMergeMap qd perm]
  rw [start, ← Report.total_perm lib memory _ heap perm,
    total_reordered lib memory qd same psids heap bounded (List.Subset.refl _)]
  rfl

end RequestHandler

end Process

/-- In exact arithmetic every query in bounds, on rows of at most `limit` bytes, has the results
of each query with the same groups and positions in another order. -/
def OrderIndependent (lib : DoubleLib ℚ) (limit : ℕ) : Prop :=
  ∀ (memory : SharedMemory ℚ) (qd : QueryData) (groups : List (List Str)) (psids : List Str),
    SameGroups qd.targetings groups → qd.psids.Perm psids → InBounds limit memory qd →
    ∀ (heap heap' : HeapWords) (self other : RequestHandler ℚ),
      (self.process lib memory { qd with targetings := groups, psids := psids } heap).map
          RequestHandler.toAccumulators =
        (other.process lib memory qd heap').map RequestHandler.toAccumulators

namespace RequestHandler

section Single

/-- A group that names the target twice, and one that names it once. -/
def twiceFirst : List (List Str) := [[targetName, targetName], [targetName]]

/-- The same groups in the other order. -/
def twiceLast : List (List Str) := [[targetName], [targetName, targetName]]

theorem sameGroups_twice : SameGroups twiceFirst twiceLast :=
  ⟨twiceLast, .swap _ _ _, List.forall₂_same.mpr fun _ _ => .refl _⟩

/-- A query for one position with these groups. -/
def groupedQuery (groups : List (List Str)) : QueryData :=
  { singleQuery [97] with targetings := groups }

end Single

section Wide

/-- `n` samples without targets, and one with the only target. -/
def wideColumns (n : ℕ) : List (List UInt32) := List.replicate n [] ++ [[0]]

theorem length_wideColumns (n : ℕ) : (wideColumns n).length = n + 1 := by
  rw [wideColumns, List.length_append, List.length_replicate, List.length_singleton]

theorem mem_wideColumns {n : ℕ} {col : List UInt32} (member : col ∈ wideColumns n) :
    col = [] ∨ col = [0] := by
  rw [wideColumns, List.mem_append, List.mem_singleton] at member
  exact member.imp_left List.eq_of_mem_replicate

/-- The bid 5 for each of them. -/
def wideBids (n : ℕ) : List UInt16 := List.replicate (n + 1) 5

variable {n : ℕ} {b : BidBitmap}
  (generated : Bitmap.generate (wideColumns n) 1 = some b.toBitmap)
  (long : 8 * computeBufferSize ≤ n) (short : n < 8 * computeBufferSize + 64)

include generated long short

theorem width_wide : b.width.toNat = computeBufferSize + 8 ∧ b.height = 1 := by
  have padded := Bitmap.width_of_generate generated
  have size := Bitmap.size_of_generate generated
  rw [length_wideColumns] at size
  refine ⟨?_, Bitmap.height_of_generate generated⟩
  unfold computeBufferSize at *
  omega

/-- Only the last sample has the target. -/
theorem cell_wide {c : ℕ} (inside : c < 8 * b.width.toNat) :
    b.cell (0 : Int32).toUInt32 c = decide (c = n) := by
  obtain ⟨width, height⟩ := width_wide generated long short
  have first : (0 : Int32).toUInt32 = 0 := rfl
  rw [first, Bitmap.cell_of_generate generated (by rw [height]; decide) inside
    (by rw [height, width]; decide), decide_eq_decide, wideColumns]
  rcases Nat.lt_trichotomy c n with before | rfl | after
  · rw [List.getD_append _ _ _ _ (by simpa using before)]
    simp [before, before.ne]
  · simp
  · rw [List.getD_eq_default _ _ (by simpa using Nat.succ_le_of_lt after)]
    simp [after.ne']

/-- In the first order the last sample is found. -/
theorem bitAt_twiceFirst : bitAt (target b.toBitmap [[0, 0], [0]] Report.blank).load n = true := by
  obtain ⟨width, -⟩ := width_wide generated long short
  have inside : n < 8 * b.width.toNat := by omega
  have reached : ptr1 + n / 8 < computeBufferSize * 2 := by
    unfold ptr1 computeBufferSize at *
    omega
  have cell := cell_wide generated long short inside
  have united := b.toBitmap.bitAt_orGroup ptr1 Report.blank (List.cons_ne_nil 0 [0]) inside reached
  rw [bitAt_ptr1] at united
  refine (bitAt_andGroup_single b.toBitmap _ 0 inside (by omega)).trans ?_
  rw [united, cell]
  simp [cell]

/-- In the second order the union of the later group replaces the end of the first. -/
theorem bitAt_twiceLast {c : ℕ} (inside : c < 8 * b.width.toNat) :
    bitAt (target b.toBitmap [[0], [0, 0]] Report.blank).load c = false := by
  obtain ⟨width, -⟩ := width_wide generated long short
  have bound := b.width_le_bound
  rw [← Bool.not_eq_true]
  intro set
  have kept := Bitmap.bitOf_combine_and_imp b.toBitmap _ set
  rcases Nat.lt_or_ge (c / 8) computeBufferSize with low | high
  · -- in the first half only the last sample was found, and it is not there
    rw [Bitmap.load_orGroup_of_notMem _ _ _ (by unfold ptr2; rw [Set.mem_Ico]; omega)] at kept
    have first := b.toBitmap.bitAt_orGroup ptr1 Report.blank (List.cons_ne_nil 0 []) inside
      (by unfold ptr1; omega)
    rw [bitAt_ptr1, bitAt, kept, List.any_cons, List.any_nil, Bool.or_false,
      cell_wide generated long short inside] at first
    have here := of_decide_eq_true first.symm
    omega
  · -- the end of the first group is the beginning of the later one
    have large : 8 ≤ computeBufferSize := by decide
    have later := b.toBitmap.bitAt_orGroup ptr2
      (b.toBitmap.orGroup ptr1 [0] Report.blank) (List.cons_ne_nil 0 [0])
      (c := c - 8 * computeBufferSize) (by omega) (by unfold ptr2; omega)
    have address : ptr2 + (c - 8 * computeBufferSize) / 8 = c / 8 := by unfold ptr2; omega
    have bit : (c - 8 * computeBufferSize) % 8 = c % 8 := by omega
    have cell := cell_wide generated long short (c := c - 8 * computeBufferSize) (by omega)
    have before : c - 8 * computeBufferSize ≠ n := by unfold computeBufferSize at *; omega
    rw [decide_eq_false before] at cell
    rw [bitAt, address, bit, kept] at later
    simp [cell] at later

theorem winNum_twiceFirst (bids : b.bids = wideBids n) (stray : BidBitmap.Stray) :
    0 < (b.count stray (target b.toBitmap [[0, 0], [0]] Report.blank).load 5).winNum.toNat := by
  obtain ⟨width, -⟩ := width_wide generated long short
  have counts := b.counts_load stray (target b.toBitmap [[0, 0], [0]] Report.blank) 5 (by decide)
  have sample : n < b.bids.length := by
    rw [bids, wideBids, List.length_replicate]
    exact Nat.lt_succ_self n
  rw [counts.winNum, Finset.card_pos]
  refine ⟨n, Finset.mem_filter.mpr ⟨List.mem_toFinset.mpr ?_, ?_⟩⟩
  · rw [BidBitmap.mem_visited (by rw [width]; decide)]
    exact ⟨by omega, bitAt_twiceFirst generated long short⟩
  · rw [BidBitmap.bidOfPosition_of_lt (by unfold computeBufferSize at short; omega) sample,
      bids, wideBids, List.getD_eq_getElem _ _ (by simp), List.getElem_replicate]
    decide

theorem winNum_twiceLast (stray : BidBitmap.Stray) :
    (b.count stray (target b.toBitmap [[0], [0, 0]] Report.blank).load 5).winNum.toNat = 0 := by
  obtain ⟨width, -⟩ := width_wide generated long short
  have counts := b.counts_load stray (target b.toBitmap [[0], [0, 0]] Report.blank) 5 (by decide)
  have none : b.visited (target b.toBitmap [[0], [0, 0]] Report.blank).load = [] := by
    rw [List.eq_nil_iff_forall_not_mem]
    intro c visited
    rw [BidBitmap.mem_visited (by rw [width]; decide)] at visited
    exact Bool.false_ne_true
      ((bitAt_twiceLast generated long short visited.1).symm.trans visited.2)
  rw [counts.winNum, none]
  rfl

omit generated long short

/-- An index with this page-view bitmap and the merge bitmap of one sample. -/
def wideIndex (b : PvBidBitmap) : Index :=
  ⟨AList.singleton [97] (some b), ∅, some (Index.singleMerge [97])⟩

/-- The page views for a position whose bitmap has seven of them. -/
theorem pv_wideIndex (lib : DoubleLib ℚ) {b : PvBidBitmap} (views : b.pv = 7)
    (groups : List (List Str)) (heap : HeapWords) :
    ∃ done, blankHandler.process lib (serving (wideIndex b) .empty) (groupedQuery groups) heap =
        some done ∧
      done.pv = ⌈((Report.retrieve (serving (wideIndex b) .empty) (groupedQuery groups) heap
        b.toBidBitmap).winNum.toNat : ℚ) / b.size.toNat⌉ := by
  have answers := isSome_process lib blankHandler
    (serving (wideIndex b) .empty) (groupedQuery groups) heap
  obtain ⟨done, finished⟩ := Option.isSome_iff_exists.mp answers
  obtain ⟨uvMergeMap, pv⟩ := Isolation.pv_of_process lib finished
  have onePv : (serving (wideIndex b) .empty).getIndex.getPvBidBitmap [97] = some b :=
    congrArg Option.join ((Dict.lookup_singleton ([97] : Str) _ (some b)).trans (if_pos rfl))
  have noUv : (serving (wideIndex b) .empty).getIndex.getUvBidBitmap [97] = none := rfl
  have label : (serving (wideIndex b) .empty).getParam.pvUseDelta = false := rfl
  have listed : (groupedQuery groups).psids = [[97]] := rfl
  have counter : (7 : UInt64).toNat = 7 := rfl
  refine ⟨done, finished, pv.trans ?_⟩
  rw [listed, Report.total, List.foldl_cons, List.foldl_nil, Report.addUv, noUv, Report.addPv,
    onePv]
  simp only [Accumulators.accumulatePv, label, Accumulators.winShare, Report.start,
    Accumulators.zero, views, counter, duration]
  refine congrArg (fun x : ℚ => ((⌈x⌉ : ℤ) : ℚ)) ?_
  norm_num

/-- The query is in bounds but that the rows have eight bytes too many. -/
theorem inBounds_wideIndex {b : PvBidBitmap} (generated : BidBitmap.generate b.toBidBitmap
    (wideColumns 80000000) (wideBids 80000000) 1 = some b.toBidBitmap) :
    InBounds (computeBufferSize + 8) (serving (wideIndex b) .empty)
      (groupedQuery twiceFirst) := by
  obtain ⟨base, -, paired⟩ := BidBitmap.generate_eq_some generated
  obtain ⟨width, height⟩ := width_wide base (by decide) (by decide)
  have encoded : Report.targetings (serving (wideIndex b) .empty) (groupedQuery twiceFirst) =
      [[0, 0], [0]] := rfl
  refine ⟨fun psid member other found => ?_, fun psid member other found => ?_, fun m found => ?_⟩
  · obtain rfl : psid = [97] := List.mem_singleton.mp member
    obtain rfl := Option.some.inj found
    refine ⟨BidBitmap.consistent_of_generate generated (by rw [width, height]; decide), paired,
      ?_, width.le, .inl (by rw [encoded]; exact List.cons_ne_nil _ _)⟩
    exact rows_of_all (by rw [encoded, height]; decide)
  · cases found
  · obtain rfl := Option.some.inj found
    exact InBounds.readable_singleMerge [97] _

/-- With 80,000,001 samples a reordered query has other page views. -/
theorem exists_wide (lib : DoubleLib ℚ) : ∃ b, PvBidBitmap.empty.generate [97] 7 7
      (List.replicate 24 0) (List.replicate 24 0) (List.replicate 24 0) (wideColumns 80000000)
      (wideBids 80000000) 1 = some b ∧
    InBounds (computeBufferSize + 8) (serving (wideIndex b) .empty) (groupedQuery twiceFirst) ∧
    ∀ heap heap', ∃ one two,
      blankHandler.process lib (serving (wideIndex b) .empty) (groupedQuery twiceFirst) heap =
        some one ∧
      blankHandler.process lib (serving (wideIndex b) .empty)
        { groupedQuery twiceFirst with targetings := twiceLast } heap' = some two ∧
      0 < one.pv ∧ two.pv = 0 := by
  have rows : (Bitmap.generate (wideColumns 80000000) 1).isSome := by
    rw [Bitmap.isSome_generate_iff, length_wideColumns]
    refine ⟨by norm_num, fun col member => ?_, fun col member => ?_⟩
    · rcases mem_wideColumns member with rfl | rfl <;> decide
    · rcases mem_wideColumns member with rfl | rfl
      · exact List.forall_mem_nil _
      · exact List.forall_mem_singleton.mpr (by decide)
  have paired : (wideBids 80000000).length = (wideColumns 80000000).length := by
    rw [length_wideColumns]
    exact List.length_replicate
  obtain ⟨b, generated⟩ := Option.isSome_iff_exists.mp
    (PvBidBitmap.isSome_generate_iff.mpr ⟨rows, paired, List.length_replicate,
      List.length_replicate, List.length_replicate⟩)
  obtain ⟨base, bids, counted, -⟩ := PvBidBitmap.generate_eq_some generated
  have views := (PvBidBitmap.counters_of_generate generated).2.1
  have columns := Bitmap.size_of_generate base
  rw [length_wideColumns] at columns
  have again : BidBitmap.generate b.toBidBitmap (wideColumns 80000000) (wideBids 80000000) 1 =
      some b.toBidBitmap := by
    rw [← bids]
    exact BidBitmap.generate_of_toBitmap base counted
  refine ⟨b, generated, inBounds_wideIndex again, fun heap heap' => ?_⟩
  obtain ⟨one, finished, pv⟩ := pv_wideIndex lib views twiceFirst heap
  obtain ⟨two, finished', pv'⟩ := pv_wideIndex lib views twiceLast heap'
  refine ⟨one, two, finished, finished', ?_, ?_⟩
  · have wins := winNum_twiceFirst base (by decide) (by decide) bids (heap b.toBidBitmap)
    rw [pv, columns, Int.cast_pos, Int.ceil_pos]
    exact div_pos (Nat.cast_pos.mpr wins) (by norm_num)
  · have loses := winNum_twiceLast base (by decide) (by decide) (heap' b.toBidBitmap)
    have retrieved : (Report.retrieve (serving (wideIndex b) .empty) (groupedQuery twiceLast) heap'
        b.toBidBitmap).winNum.toNat = 0 := loses
    rw [pv', retrieved]
    norm_num

end Wide

end RequestHandler

end FlowRetrieval
