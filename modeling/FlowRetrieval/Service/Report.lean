/-
# The report of a query

What a request reports is a function of the shared memory, the query and the heap around the
bids. The definitions here compute it without the state of a handler: every bitmap operation
works on a blank buffer, and only the accumulators are passed on. `Process` refines them,
because what it reads of its buffer it has written during the same request.

## Main results

* `RequestHandler.process_eq` — `Process` leaves the report and its text
-/
import FlowRetrieval.Service.RequestHandler

namespace FlowRetrieval

open CS Targeting

namespace Report

/-- A buffer with nothing in it. -/
def blank : ComputeBuffer := fun _ => 0

variable {R : Type} [Double R] (lib : DoubleLib R) (memory : SharedMemory R) (qd : QueryData)
  (heap : HeapWords)

/-- The encoded targeting of the query. -/
def targetings : List (List Int32) := encode memory.getTargetId qd.targetings

/-- What `Count` finds in a bitmap after `GetTarget`. -/
def retrieve (b : BidBitmap) : Result :=
  b.count (heap b) (target b.toBitmap (targetings memory qd) Report.blank).load
    qd.price.toUInt32

/-- The rate that `GetUvMergeRate` computes. -/
def uvMergeRate (uvMergeMap : UvMergeBitmap) : R :=
  let rowIds := RequestHandler.mergeRows uvMergeMap qd.psids
  let union := uvMergeMap.union rowIds ptr1 Report.blank
  (((uvMergeMap.countMask union.load).toInt : R) + escapeZero) /
    (RequestHandler.sumRowUv uvMergeMap rowIds + escapeZero)

/-- The accumulators before the positions of a query. -/
def start (uvMergeMap : UvMergeBitmap) : Accumulators R :=
  { Accumulators.zero with uvMergeRate := uvMergeRate qd uvMergeMap }

/-- What the page-view bitmap of an ad position adds. -/
def addPv (acc : Accumulators R) (psid : Str) : Accumulators R :=
  match memory.getIndex.getPvBidBitmap psid with
  | none => acc
  | some pvMap =>
    acc.accumulatePv pvMap (retrieve memory qd heap pvMap.toBidBitmap) memory.getParam qd
      (pvMap.getHourlyCtr lib qd.hours)

/-- What the unique-visitor bitmap of an ad position adds. -/
def addUv (acc : Accumulators R) (psid : Str) : Accumulators R :=
  match memory.getIndex.getUvBidBitmap psid with
  | none => acc
  | some uvMap =>
    acc.accumulateUv uvMap (retrieve memory qd heap uvMap.toBidBitmap) memory.getParam

/-- The accumulators after the positions of a query. -/
def total (acc : Accumulators R) (psids : List Str) : Accumulators R :=
  psids.foldl (fun acc psid => addUv memory qd heap (addPv lib memory qd heap acc psid) psid) acc

end Report

/-- The report of a query; there is none without a merge bitmap. -/
def report {R : Type} [Double R] (lib : DoubleLib R) (memory : SharedMemory R) (qd : QueryData)
    (heap : HeapWords) : Option (Accumulators R) :=
  memory.getIndex.getUvMergeBitmap.map fun uvMergeMap =>
    (Report.total lib memory qd heap (Report.start qd uvMergeMap) qd.psids).calculate lib
      memory.getParam qd

namespace RequestHandler

variable {R : Type}

/-- After `GetTarget`, what `Count` finds does not depend on the state of the handler. -/
theorem count_getTarget {memory : SharedMemory R} {qd : QueryData} {self : RequestHandler R}
    (encoded : self.targetings = Report.targetings memory qd) (heap : HeapWords) (b : BidBitmap) :
    b.count (heap b) (self.getTarget b).computeBuf.load qd.price.toUInt32 =
      Report.retrieve memory qd heap b := by
  apply b.count_congr
  intro i inside
  rw [getTarget, encoded]
  -- `Count` reads the first `width` bytes, all of which `GetTarget` has written
  refine eqOn_target b.toBitmap (fun _ => ne_nil_of_mem_encode) self.computeBuf
    Report.blank ?_
  exact Set.mem_Ico.mpr ⟨Nat.zero_le i, inside.trans_le (Nat.le_add_left _ _)⟩

variable [Double R] (lib : DoubleLib R) (memory : SharedMemory R) (qd : QueryData)
  (heap : HeapWords)

/-- The handler has these accumulators and the encoded targeting of the query. -/
structure Tracks (handler : RequestHandler R) (acc : Accumulators R) : Prop where
  sums : handler.toAccumulators = acc
  encoded : handler.targetings = Report.targetings memory qd

variable {memory} {qd} {self : RequestHandler R} {acc : Accumulators R}

theorem Tracks.processPv (tracks : Tracks memory qd self acc) (psid : Str) :
    Tracks memory qd (self.processPv lib memory qd heap psid)
      (Report.addPv lib memory qd heap acc psid) := by
  obtain ⟨rfl, encoded⟩ := tracks
  rw [RequestHandler.processPv, Report.addPv]
  cases memory.getIndex.getPvBidBitmap psid with
  | none => exact ⟨rfl, encoded⟩
  | some pvMap =>
    -- the buffer changes as well, but nothing here reads it again
    simp only [count_getTarget encoded]
    exact ⟨rfl, encoded⟩

theorem Tracks.processUv (tracks : Tracks memory qd self acc) (psid : Str) :
    Tracks memory qd (self.processUv memory qd heap psid)
      (Report.addUv memory qd heap acc psid) := by
  obtain ⟨rfl, encoded⟩ := tracks
  rw [RequestHandler.processUv, Report.addUv]
  cases memory.getIndex.getUvBidBitmap psid with
  | none => exact ⟨rfl, encoded⟩
  | some uvMap =>
    simp only [count_getTarget encoded]
    exact ⟨rfl, encoded⟩

/-- The loop over the positions of a query adds up their bitmaps. -/
theorem Tracks.total (tracks : Tracks memory qd self acc) (psids : List Str) :
    Tracks memory qd
      (psids.foldl
        (fun self psid => (self.processPv lib memory qd heap psid).processUv memory qd heap psid)
        self)
      (Report.total lib memory qd heap acc psids) := by
  induction psids generalizing self acc with
  | nil => exact tracks
  | cons psid psids ih => exact ih ((tracks.processPv lib heap psid).processUv heap psid)

variable (memory) (qd) (self)

/-- Before the loop only the merge rate is set, and it is the rate of the query. -/
theorem tracks_start (uvMergeMap : UvMergeBitmap) :
    Tracks memory qd ((self.clear.encodeTargeting memory qd).getUvMergeRate qd uvMergeMap)
      (Report.start qd uvMergeMap) where
  sums := by
    -- what `Count` reads, `Union` has written
    have counted (buffer : ComputeBuffer) (rowIds : List Int32) :
        uvMergeMap.countMask (uvMergeMap.union rowIds ptr1 buffer).load =
          uvMergeMap.countMask (uvMergeMap.union rowIds ptr1 Report.blank).load := by
      apply uvMergeMap.countBytes_congr
      intro i inside
      apply uvMergeMap.eqOn_union rowIds ptr1 buffer Report.blank
      exact Set.mem_Ico.mpr ⟨Nat.zero_le i, inside.trans_le (Nat.le_add_left _ _)⟩
    rw [getUvMergeRate, Report.start, Report.uvMergeRate]
    simp only [counted]
    rfl
  encoded := List.nil_append _

/-- `Process` leaves the report of the query and its text, whatever state the handler is in. -/
theorem process_eq :
    (self.process lib memory qd heap).map
        (fun handler => (handler.toAccumulators, handler.jsonStr)) =
      (report lib memory qd heap).map fun acc => (acc, acc.toJson lib) := by
  rw [process, report]
  cases memory.getIndex.getUvMergeBitmap with
  | none => rfl
  | some uvMergeMap =>
    have total := (tracks_start memory qd self uvMergeMap).total lib heap qd.psids
    simp only [Option.map_some, total.sums]

variable {memory} {qd} {self}

/-- What `Process` leaves is calculated from the sums over the positions of the query. -/
theorem toAccumulators_of_process {done : RequestHandler R}
    (finished : self.process lib memory qd heap = some done) :
    ∃ uvMergeMap, memory.getIndex.getUvMergeBitmap = some uvMergeMap ∧
      done.toAccumulators = (Report.total lib memory qd heap (Report.start qd uvMergeMap)
        qd.psids).calculate lib memory.getParam qd := by
  have same := process_eq lib memory qd heap self
  rw [finished, Option.map_some] at same
  obtain ⟨acc, reported, pair⟩ := Option.map_eq_some_iff.mp same.symm
  obtain ⟨uvMergeMap, stored, totals⟩ := Option.map_eq_some_iff.mp reported
  exact ⟨uvMergeMap, stored, (congrArg Prod.fst pair).symm.trans totals.symm⟩

variable (memory) (qd) (self)

/-- The results of a request do not depend on the state of the handler. -/
theorem toAccumulators_process :
    (self.process lib memory qd heap).map RequestHandler.toAccumulators =
      report lib memory qd heap := by
  have same := congrArg (Option.map Prod.fst) (process_eq lib memory qd heap self)
  rw [Option.map_map, Option.map_map] at same
  exact same.trans Option.map_id'

/-- The text of a request does not depend on the state of the handler. -/
theorem json_process :
    (self.process lib memory qd heap).map getJsonResult =
      (report lib memory qd heap).map fun acc => acc.toJson lib := by
  have same := congrArg (Option.map Prod.snd) (process_eq lib memory qd heap self)
  rwa [Option.map_map, Option.map_map] at same

end RequestHandler

end FlowRetrieval
