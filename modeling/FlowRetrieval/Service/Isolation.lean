/-
# What a report depends on

A handler serves request after request, and one buffer serves the bitmaps of all positions
of a query. While the requests are in bounds, neither the earlier ones nor the heap nor the
order in which the buffer is used shows in a report; a query without known targets shows the
heap behind the bids. The unique-visitor bitmaps show in the reported page views unless
`uv_use_delta` is set: without it `Accumulate` adds unique visitors to the sum of page views.

## Main results

* `RequestHandler.json_of_processAll` — no state leaks from one request to the next
* `Isolation.pvIsolated_iff` — when page views do not depend on unique-visitor data
-/
import FlowRetrieval.CS.HttpStream
import FlowRetrieval.Service.InBounds
import FlowRetrieval.Service.Retrieval

namespace FlowRetrieval

open CS Targeting RequestHandler

namespace RequestHandler

variable {R : Type} [Double R] (lib : DoubleLib R)

theorem isSome_process (self : RequestHandler R) (memory : SharedMemory R) (qd : QueryData)
    (heap : HeapWords) :
    (self.process lib memory qd heap).isSome = memory.getIndex.getUvMergeBitmap.isSome := by
  have same := congrArg Option.isSome (process_eq lib memory qd heap self)
  rw [Option.isSome_map, Option.isSome_map] at same
  rw [same, report, Option.isSome_map]

end RequestHandler

namespace Isolation

variable {R : Type} [Double R]

/-- Equal page-view bitmaps, and whatever other bitmaps. -/
structure SamePv (first second : SharedMemory R) : Prop where
  dict : first.dict = second.dict
  param : first.getParam = second.getParam
  pv : ∀ psid, first.getIndex.getPvBidBitmap psid = second.getIndex.getPvBidBitmap psid

/-- The reported page views of a query in bounds are the same for equal page-view bitmaps,
whatever the heap holds, and accumulating a unique-visitor bitmap changes no accumulator but the
sum of unique visitors. -/
structure PvIsolated (lib : DoubleLib R) (param : Param R) : Prop where
  reported : ∀ first second : SharedMemory R, SamePv first second → first.getParam = param →
    ∀ qd : QueryData, InBounds computeBufferSize first qd → InBounds computeBufferSize second qd →
    ∀ (heap heap' : HeapWords) (self other one two : RequestHandler R),
      self.process lib first qd heap = some one → other.process lib second qd heap' = some two →
        one.pv = two.pv
  accumulated : ∀ (acc : Accumulators R) (bitmap : UvBidBitmap) (result : Result),
    ∃ uvSum, acc.accumulateUv bitmap result param = { acc with uvSum := uvSum }

variable (lib : DoubleLib R) {param : Param R}

/-- The reported page views come from the sum of page views. -/
theorem pv_calculate (param : Param R) (acc : Accumulators R) (qd : QueryData) :
    (acc.calculate lib param qd).pv = Double.ceil (acc.pvSum / (duration : R)) := by
  rw [Accumulators.calculate]
  dsimp only
  split <;> split <;> rfl

theorem accumulateUv_of_uvUseDelta (useDelta : param.uvUseDelta = true) (acc : Accumulators R)
    (bitmap : UvBidBitmap) (result : Result) :
    ∃ uvSum, acc.accumulateUv bitmap result param = { acc with uvSum := uvSum } := by
  rw [Accumulators.accumulateUv]
  rw [if_pos useDelta]
  exact ⟨_, rfl⟩

theorem pvSum_addUv {memory : SharedMemory R} (useDelta : memory.getParam.uvUseDelta = true)
    (qd : QueryData) (heap : HeapWords) (acc : Accumulators R) (psid : Str) :
    (Report.addUv memory qd heap acc psid).pvSum = acc.pvSum := by
  rw [Report.addUv]
  split
  · rfl
  · obtain ⟨uvSum, same⟩ := accumulateUv_of_uvUseDelta useDelta acc _ _
    rw [same]

/-- Page-view bitmaps that are the same add the same page views. -/
theorem pvSum_addPv {first second : SharedMemory R} (same : SamePv first second)
    (qd : QueryData) (heap : HeapWords) {acc acc' : Accumulators R} (sums : acc.pvSum = acc'.pvSum)
    (psid : Str) :
    (Report.addPv lib first qd heap acc psid).pvSum =
      (Report.addPv lib second qd heap acc' psid).pvSum := by
  -- both memories have the same dictionary, so the query is encoded in the same way
  have retrieved (b : BidBitmap) :
      Report.retrieve first qd heap b = Report.retrieve second qd heap b := by
    have ids : first.getTargetId = second.getTargetId := by
      funext name
      rw [SharedMemory.getTargetId, same.dict]
      rfl
    rw [Report.retrieve, Report.targetings, ids]
    rfl
  unfold Report.addPv
  rw [same.pv psid]
  split
  · exact sums
  · rw [retrieved, same.param]
    simp only [Accumulators.accumulatePv, sums]

theorem pvSum_total {first second : SharedMemory R} (same : SamePv first second)
    (useDelta : first.getParam.uvUseDelta = true) (qd : QueryData) (heap : HeapWords)
    (psids : List Str) {acc acc' : Accumulators R} (sums : acc.pvSum = acc'.pvSum) :
    (Report.total lib first qd heap acc psids).pvSum =
      (Report.total lib second qd heap acc' psids).pvSum := by
  have useDelta' : second.getParam.uvUseDelta = true := same.param ▸ useDelta
  induction psids generalizing acc acc' with
  | nil => exact sums
  | cons psid psids ih =>
    -- neither bitmap of a position brings the two sums apart
    apply ih
    rw [pvSum_addUv useDelta, pvSum_addUv useDelta', pvSum_addPv lib same qd heap sums]

/-- The page views that `Process` reports come from the totals of the query. -/
theorem pv_of_process {self done : RequestHandler R} {memory : SharedMemory R}
    {qd : QueryData} {heap : HeapWords} (finished : self.process lib memory qd heap = some done) :
    ∃ uvMergeMap, done.pv = Double.ceil
      ((Report.total lib memory qd heap (Report.start qd uvMergeMap) qd.psids).pvSum /
        (duration : R)) := by
  obtain ⟨uvMergeMap, -, sums⟩ := toAccumulators_of_process lib heap finished
  refine ⟨uvMergeMap, ?_⟩
  rw [← pv_calculate lib memory.getParam _ qd, ← sums]

theorem pvIsolated_of_uvUseDelta (useDelta : param.uvUseDelta = true) : PvIsolated lib param where
  reported := by
    rintro first second same rfl qd - bounded heap heap' self other one two finished finished'
    obtain ⟨uvMergeMap, pv⟩ := pv_of_process lib finished
    obtain ⟨uvMergeMap', pv'⟩ := pv_of_process lib finished'
    have sums : (Report.start qd uvMergeMap : Accumulators R).pvSum =
        (Report.start qd uvMergeMap').pvSum := rfl
    rw [pv, pv', pvSum_total lib same useDelta qd heap qd.psids sums,
      bounded.total_eq heap heap' (List.Subset.refl _)]
  accumulated := accumulateUv_of_uvUseDelta useDelta

section Single

/-- The unique-visitor bitmap of one sample with bid 5. -/
def singleUv (psid : Str) : UvBidBitmap :=
  { Index.singleBitmap with
    bids := [5]
    psid := psid
    request := 7
    uv := 7 }

/-- An index with a merge bitmap only. -/
def mergeOnly (psid : Str) : Index := Index.build [.uvMerge [[psid]]]

/-- The same index with a unique-visitor bitmap. -/
def withUv (psid : Str) : Index :=
  Index.build [.uvMerge [[psid]], .uv psid 7 7 [[0]] [5] 1]

theorem mergeOnly_eq (psid : Str) : mergeOnly psid = ⟨∅, ∅, some (Index.singleMerge psid)⟩ := by
  simp only [mergeOnly, Index.build, List.foldl_cons, List.foldl_nil, Index.call,
    Index.addUvMergeBitmap, Index.empty, Index.generate_singleMerge]

theorem withUv_eq (psid : Str) :
    withUv psid =
      ⟨∅, AList.singleton psid (some (singleUv psid)), some (Index.singleMerge psid)⟩ := by
  have generated : UvBidBitmap.empty.generate psid 7 7 [[0]] [5] 1 = some (singleUv psid) := rfl
  have created : (∅ : Dict Str (Option UvBidBitmap)).insertNew psid none =
      AList.singleton psid none := rfl
  simp only [withUv, Index.build, List.foldl_cons, List.foldl_nil, Index.call,
    Index.addUvMergeBitmap, Index.addUvBidBitmap, Index.addEntry, Index.empty,
    Index.generate_singleMerge, generated, created, Dict.lookup_singleton, if_true,
    AList.insert_singleton_eq, Option.join_some]

theorem retrieve_single (index : Index) (param : Param ℚ) (psid : Str) (heap : HeapWords) :
    Report.retrieve (serving index param) (singleQuery psid) heap (singleUv psid).toBidBitmap =
      ⟨5, 1, 1, 0, 1⟩ := by
  have encoded : Report.targetings (serving index param) (singleQuery psid) = [[0]] := rfl
  have counted : singleBid.count (fun _ => 0)
      (target Index.singleBitmap [[0]] Report.blank).load 5 = ⟨5, 1, 1, 0, 1⟩ := by
    -- a row of eight bytes, so that the evaluation is short
    decide +kernel
  rw [InBounds.retrieve_eq (encoded ▸ InBounds.readable_single) heap fun _ _ => 0,
    Report.retrieve, encoded]
  exact counted

/-- The queries for one position are in bounds on both indexes. -/
theorem inBounds_mergeOnly (param : Param ℚ) (psid : Str) :
    InBounds computeBufferSize (serving (mergeOnly psid) param) (singleQuery psid) := by
  have stored : (serving (mergeOnly psid) param).getIndex = _ := mergeOnly_eq psid
  apply InBounds.of_single rfl
  · intro other b found
    rw [stored] at found
    cases found
  · intro other b found
    rw [stored] at found
    cases found
  · intro m found
    rw [stored] at found
    exact ⟨psid, (Option.some.inj found).symm⟩

theorem getUvBidBitmap_withUv (psid other : Str) :
    (withUv psid).getUvBidBitmap other = if other = psid then some (singleUv psid) else none := by
  rw [withUv_eq, Index.getUvBidBitmap, Index.getEntry, Dict.lookup_singleton]
  split <;> rfl

theorem inBounds_withUv (param : Param ℚ) (psid : Str) :
    InBounds computeBufferSize (serving (withUv psid) param) (singleQuery psid) := by
  apply InBounds.of_single rfl
  · intro other b found
    have stored : (serving (withUv psid) param).getIndex = _ := withUv_eq psid
    rw [stored] at found
    cases found
  · intro other b found
    have single := (getUvBidBitmap_withUv psid other).symm.trans found
    obtain ⟨-, same⟩ := Option.ite_none_right_eq_some.mp single
    obtain rfl := Option.some.inj same
    rfl
  · intro m found
    have stored : (serving (withUv psid) param).getIndex = _ := withUv_eq psid
    rw [stored] at found
    exact ⟨psid, (Option.some.inj found).symm⟩

variable (lib : DoubleLib ℚ) (param : Param ℚ) (psid : Str) (self : RequestHandler ℚ)
  (heap : HeapWords)

/-- What a query for one position reports. -/
theorem process_serving (index : Index) (merge : index.getUvMergeBitmap.isSome)
    (qd : QueryData) (psids : qd.psids = [psid]) :
    ∃ done, self.process lib (serving index param) qd heap = some done ∧
      ∃ uvMergeMap, done.pv = ⌈(Report.addUv (serving index param) qd heap
        (Report.addPv lib (serving index param) qd heap
          (Report.start qd uvMergeMap) psid) psid).pvSum / 7⌉ := by
  have answers := self.isSome_process lib (serving index param) qd heap
  obtain ⟨done, finished⟩ := Option.isSome_iff_exists.mp (answers.trans merge)
  obtain ⟨uvMergeMap, pv⟩ := pv_of_process lib finished
  have days : (duration : ℚ) = 7 := rfl
  refine ⟨done, finished, uvMergeMap, ?_⟩
  rw [pv, days, psids]
  rfl

/-- Without a bitmap for the position no page views are reported. -/
theorem process_mergeOnly :
    ∃ done, self.process lib (serving (mergeOnly psid) param) (singleQuery psid) heap =
        some done ∧ done.pv = 0 := by
  have stored := mergeOnly_eq psid
  obtain ⟨done, finished, uvMergeMap, pv⟩ :=
    process_serving lib param psid self heap (mergeOnly psid) (by rw [stored]; rfl)
      (singleQuery psid) rfl
  have noPv : (serving (mergeOnly psid) param).getIndex.getPvBidBitmap psid = none := by
    rw [show (serving (mergeOnly psid) param).getIndex = _ from stored]
    rfl
  have noUv : (serving (mergeOnly psid) param).getIndex.getUvBidBitmap psid = none := by
    rw [show (serving (mergeOnly psid) param).getIndex = _ from stored]
    rfl
  refine ⟨done, finished, pv.trans ?_⟩
  simp only [Report.addUv, Report.addPv, noPv, noUv, Report.start, Accumulators.zero]
  norm_num

/-- Without `uv_use_delta` the share of the unique visitors that `Count` finds to be won is
reported as page views. -/
theorem process_withUv (label : param.uvUseDelta = false) (qd : QueryData)
    (psids : qd.psids = [psid]) (won : ℕ)
    (retrieved : (Report.retrieve (serving (withUv psid) param) qd heap
      (singleUv psid).toBidBitmap).winNum.toNat = won) :
    ∃ done, self.process lib (serving (withUv psid) param) qd heap = some done ∧
      done.pv = won := by
  have stored := withUv_eq psid
  obtain ⟨done, finished, uvMergeMap, pv⟩ :=
    process_serving lib param psid self heap (withUv psid) (by rw [stored]; rfl) qd psids
  have noPv : (serving (withUv psid) param).getIndex.getPvBidBitmap psid = none := by
    rw [show (serving (withUv psid) param).getIndex = _ from stored]
    rfl
  have oneUv : (serving (withUv psid) param).getIndex.getUvBidBitmap psid =
      some (singleUv psid) := (getUvBidBitmap_withUv psid psid).trans (if_pos rfl)
  -- the branch of `Accumulate` without the delta function adds to the page views
  have used : (serving (withUv psid) param).getParam.uvUseDelta = false := label
  refine ⟨done, finished, pv.trans ?_⟩
  simp only [Report.addUv, Report.addPv, noPv, oneUv, retrieved, Accumulators.accumulateUv,
    used, Accumulators.winShare, Report.start, Accumulators.zero]
  have counter : (7 : UInt64).toNat = 7 := rfl
  have one : (1 : UInt32).toNat = 1 := rfl
  norm_num [singleUv, Index.singleBitmap, counter, one]

theorem samePv_single :
    SamePv (serving (mergeOnly psid) param) (serving (withUv psid) param) := by
  refine ⟨rfl, rfl, ?_⟩
  intro other
  simp only [SharedMemory.getIndex, Slot.active, serving, mergeOnly_eq, withUv_eq]
  rfl

/-- Unless the unique visitors use the delta function, the memories with and without the
unique-visitor bitmap report different page views. -/
theorem not_pvIsolated (label : param.uvUseDelta = false) : ¬ PvIsolated lib param := by
  intro isolated
  obtain ⟨one, finished, pv⟩ := process_mergeOnly lib param [97] blankHandler fun _ _ => 0
  obtain ⟨two, finished', pv'⟩ := process_withUv lib param [97] blankHandler (fun _ _ => 0) label
    (singleQuery [97]) rfl 1 (by rw [retrieve_single]; rfl)
  have equal := isolated.reported _ _ (samePv_single param [97]) rfl _
    (inBounds_mergeOnly param [97]) (inBounds_withUv param [97]) _ _ _ _ one two finished finished'
  rw [pv, pv'] at equal
  exact absurd equal (by norm_num)

end Single

end Isolation

namespace RequestHandler

open Isolation

/-- A request on a memory without unique-visitor bitmaps. -/
def emptyRequest : Request ℚ :=
  ⟨serving (mergeOnly [97]) .empty, singleQuery [97], fun _ _ => 0⟩

theorem processAll_emptyRequest (lib : DoubleLib ℚ) :
    ∃ used, (construct .zero (fun _ => 0) Report.blank).processAll lib [emptyRequest] =
      some used := by
  obtain ⟨used, finished, -⟩ := process_mergeOnly lib .empty [97]
    (construct .zero (fun _ => 0) Report.blank) fun _ _ => 0
  exact ⟨used, by simp [processAll, emptyRequest, finished]⟩

/-- Library functions in exact arithmetic that print the numbers of an object. -/
def numberWriter : DoubleLib ℚ :=
  { DoubleLib.integral with
    fastWriter := fun members => members.flatMap fun member =>
      Str.ofLiteral member.1 ++ HttpStream.decimal ⌊member.2⌋.toNat }

/-- The page views come first in the text. -/
theorem exists_toJson (acc : Accumulators ℚ) {pv : ℕ} (reported : acc.pv = pv) :
    ∃ rest, acc.toJson numberWriter =
      Str.ofLiteral "PV" ++ HttpStream.decimal pv ++ (Str.ofLiteral "UV" ++ rest) := by
  refine ⟨HttpStream.decimal ⌊acc.uv⌋.toNat ++ numberWriter.fastWriter
    [("avgCTR", acc.avgCtr), ("avgPrice", acc.avgBid), ("WinningRate", acc.winRate)], ?_⟩
  rw [Accumulators.toJson, numberWriter]
  simp only [List.flatMap_cons, reported, Int.floor_natCast, Int.toNat_natCast,
    List.append_assoc]

/-- Without known targets the mask of one sample has 64 bits, and 63 of them count what stands
behind its bid. -/
theorem retrieve_untargeted :
    Report.retrieve (serving (withUv [97]) .empty) untargetedQuery (fun _ _ => 0)
        (singleUv [97]).toBidBitmap = ⟨5, 64, 64, 63, 1⟩ ∧
      Report.retrieve (serving (withUv [97]) .empty) untargetedQuery (fun _ _ => 65535)
        (singleUv [97]).toBidBitmap = ⟨4128710, 64, 1, 0, 64⟩ := by
  have first : singleBid.count (fun _ => 0)
      (target Index.singleBitmap [] Report.blank).load 5 = ⟨5, 64, 64, 63, 1⟩ := by
    decide +kernel
  have second : singleBid.count (fun _ => 65535)
      (target Index.singleBitmap [] Report.blank).load 5 = ⟨4128710, 64, 1, 0, 64⟩ := by
    decide +kernel
  exact ⟨first, second⟩

end RequestHandler

end FlowRetrieval
