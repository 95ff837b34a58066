/-
# Request handlers

`RequestHandler::Process` clears its accumulators, encodes the targeting of the query and
then adds up, position by position, what the page-view and the unique-visitor bitmap of the
position say about the targeted samples. A handler is reused for request after request; its
constructor leaves the accumulators and both buffers uninitialised. What `Count` finds outside
the bids of a bitmap is the heap of the request, an argument of `Process` here.
-/
import FlowRetrieval.Service.SharedMemory
import FlowRetrieval.Service.Targeting

namespace FlowRetrieval

open CS

/-- `QueryData`. -/
structure QueryData where
  price : Int32
  bidType : Int32
  advertType : Int32
  platform : Int32
  hours : List UInt32
  targetings : List (List Str)
  psids : List Str

/-- The accumulators and the results of a request. -/
structure Accumulators (R : Type) where
  uvSum : R
  pvSum : R
  uvMergeRate : R
  avgCtrWeightsSum : R
  avgCtrWeightedSum : R
  avgBidWeightsSum : R
  avgBidWeightedSum : R
  winRateWeightsSum : R
  winRateWeightedSum : R
  uv : R
  pv : R
  avgCtr : R
  avgBid : R
  winRate : R

def requestBufferSize : ℕ := 32 * 1024

/-- `RequestHandler`. -/
structure RequestHandler (R : Type) extends Accumulators R where
  requestBuf : ByteMemory requestBufferSize
  computeBuf : Targeting.ComputeBuffer
  targetings : List (List Int32)
  jsonStr : Str

/-- `DURATION`. -/
def duration : ℕ := 7

namespace Accumulators

variable {R : Type} [Double R] (acc : Accumulators R)

/-- The accumulators after `Clear`. -/
def zero : Accumulators R where
  uvSum := 0.0
  pvSum := 0.0
  uvMergeRate := 0.0
  avgCtrWeightsSum := 0.0
  avgCtrWeightedSum := 0.0
  avgBidWeightsSum := 0.0
  avgBidWeightedSum := 0.0
  winRateWeightsSum := 0.0
  winRateWeightedSum := 0.0
  uv := 0.0
  pv := 0.0
  avgCtr := 0.0
  avgBid := 0.0
  winRate := 0.0

/-- The share of the samples that a bid wins, `result.win_num * 1.0 / bitmap.GetSize()`. -/
def winShare (bitmap : BidBitmap) (result : Result) : R :=
  (result.winNum.toNat : R) * 1.0 / (bitmap.size.toNat : R)

/-- `Accumulate(const PvBidBitmap&, …)`. -/
def accumulatePv (bitmap : PvBidBitmap) (result : Result) (param : Param R) (qd : QueryData)
    (ctr : R) : Accumulators R :=
  let request : R := (bitmap.request.toNat : R)
  let pv : R := (bitmap.pv.toNat : R)
  let weight (usePos : Bool) : R := if usePos then request else pv
  let share := winShare bitmap.toBidBitmap result
  let acc := { acc with
    pvSum := acc.pvSum +
      if param.pvUseDelta then share * param.getPvDelta bitmap.getRate * request else share * pv }
  let acc := { acc with
    avgCtrWeightedSum := acc.avgCtrWeightedSum + ctr * weight param.avgCtrUsePos
    avgCtrWeightsSum := acc.avgCtrWeightsSum + weight param.avgCtrUsePos * 1.0 }
  -- the average bid of the targeted samples, but at least the minimum of the platform
  let minBid := param.getMinBids qd.platform qd.advertType
  let avgBid := (result.bidSum.toNat : R) / ((result.bidNum.toNat : R) + escapeZero)
  let avgBid := if minBid < avgBid then avgBid else minBid
  let acc := { acc with
    avgBidWeightedSum := acc.avgBidWeightedSum + avgBid * weight param.avgBidUsePos
    avgBidWeightsSum := acc.avgBidWeightsSum + weight param.avgBidUsePos * 1.0 }
  let winRateWithZero := (result.winNum.toNat : R) / ((result.targetNum.toNat : R) + escapeZero)
  let winRate :=
    if param.winRateUseDelta then
      -- both differences are taken on `uint32_t`
      let winRateWithoutZero := ((result.winNum - result.zeroNum).toNat : R) /
        (((result.targetNum - result.zeroNum).toNat : R) + escapeZero)
      let delta := param.getWinRateDelta bitmap.getRate
      winRateWithZero * delta + winRateWithoutZero * (1.0 - delta)
    else winRateWithZero
  { acc with
    winRateWeightedSum := acc.winRateWeightedSum + winRate * weight param.winRateUsePos
    winRateWeightsSum := acc.winRateWeightsSum + weight param.winRateUsePos }

/-- `Accumulate(const UvBidBitmap&, …)`. -/
def accumulateUv (bitmap : UvBidBitmap) (result : Result) (param : Param R) : Accumulators R :=
  let share := winShare bitmap.toBidBitmap result
  if param.uvUseDelta then
    { acc with
      uvSum := acc.uvSum +
        share * param.getUvDelta bitmap.getRate * (bitmap.request.toNat : R) }
  -- the source adds to `pv_sum_` here
  else { acc with pvSum := acc.pvSum + share * (bitmap.uv.toNat : R) }

/-- `Calculate`. -/
def calculate (lib : DoubleLib R) (param : Param R) (qd : QueryData) : Accumulators R :=
  let acc := { acc with pv := Double.ceil (acc.pvSum / (duration : R)) }
  let acc := { acc with uv := Double.ceil (acc.uvSum * acc.uvMergeRate / (duration : R)) }
  let acc := { acc with
    uv := if acc.pv * param.uvPvMaxRate < acc.uv then Double.ceil (acc.pv * param.uvPvMaxRate)
      else acc.uv }
  let acc := { acc with
    uv := if acc.uv < acc.pv * param.uvPvMinRate then Double.ceil (acc.pv * param.uvPvMinRate)
      else acc.uv }
  let acc :=
    -- `MIN_DISPLAY_PV`; below it the averages keep their zeros
    if 0.99 < acc.pv then
      { acc with
        avgCtr := acc.avgCtrWeightedSum / (acc.avgCtrWeightsSum + escapeZero)
        avgBid := acc.avgBidWeightedSum / (acc.avgBidWeightsSum + escapeZero)
        winRate := acc.winRateWeightedSum / (acc.winRateWeightsSum + escapeZero) }
    else acc
  let acc :=
    if !param.winRateUseDelta then
      let rate := lib.pow
        ((qd.price.toInt : R) / param.getWinRateThreshold qd.platform qd.advertType)
        (param.getWinRateScale qd.platform qd.advertType)
      { acc with winRate := acc.winRate * (if rate < 1.0 then rate else 1.0) }
    else acc
  { acc with
    winRate := if param.maxWinRate < acc.winRate then param.maxWinRate else acc.winRate }

/-- `ToJson`: the text for `json_str_`. -/
def toJson (lib : DoubleLib R) : Str :=
  lib.fastWriter
    [("PV", acc.pv), ("UV", acc.uv), ("avgCTR", acc.avgCtr), ("avgPrice", acc.avgBid),
      ("WinningRate", acc.winRate)]

end Accumulators

namespace RequestHandler

open Targeting

variable {R : Type} [Double R] (self : RequestHandler R) (lib : DoubleLib R)
  (memory : SharedMemory R) (qd : QueryData)

/-- The constructor, with what the memory held before as its arguments. -/
def construct (garbage : Accumulators R) (requestBuf : ByteMemory requestBufferSize)
    (computeBuf : ComputeBuffer) : RequestHandler R :=
  ⟨garbage, requestBuf, computeBuf, [], []⟩

/-- `Clear`. -/
def clear : RequestHandler R where
  toAccumulators := .zero
  requestBuf := self.requestBuf.fill 0 0 requestBufferSize
  computeBuf := self.computeBuf
  targetings := []
  jsonStr := []

/-- `EncodeTargeting`. -/
def encodeTargeting : RequestHandler R :=
  { self with targetings := self.targetings ++ encode memory.getTargetId qd.targetings }

/-- Only the names of the query are encoded after `Clear`. -/
theorem targetings_encodeTargeting :
    (self.clear.encodeTargeting memory qd).targetings =
      encode memory.getTargetId qd.targetings := List.nil_append _

/-- `GetTarget`. -/
def getTarget (bitmap : BidBitmap) : RequestHandler R :=
  { self with computeBuf := target bitmap.toBitmap self.targetings self.computeBuf }

/-- The row ids that `GetUvMergeRate` collects. -/
def mergeRows (uvMergeMap : UvMergeBitmap) (psids : List Str) : List Int32 :=
  (psids.map uvMergeMap.getRowId).filter fun row => 0 ≤ row

/-- The sum of the counters of the rows that have one. -/
def sumRowUv (uvMergeMap : UvMergeBitmap) (rows : List Int32) : R :=
  rows.foldl
    (fun sum row =>
      let rowUv := uvMergeMap.getRowUv row.toUInt32
      if rowUv < 0 then sum else sum + (rowUv.toInt : R))
    0.0

/-- `GetUvMergeRate`. -/
def getUvMergeRate (uvMergeMap : UvMergeBitmap) : RequestHandler R :=
  let rowIds := mergeRows uvMergeMap qd.psids
  let self := { self with computeBuf := uvMergeMap.union rowIds ptr1 self.computeBuf }
  { self with
    uvMergeRate := (((uvMergeMap.countMask self.computeBuf.load).toInt : R) + escapeZero) /
      (sumRowUv uvMergeMap rowIds + escapeZero) }

/-- The page-view half of the loop body of `Process`. -/
def processPv (heap : HeapWords) (psid : Str) : RequestHandler R :=
  match memory.getIndex.getPvBidBitmap psid with
  | none => self
  | some pvMap =>
    let self := self.getTarget pvMap.toBidBitmap
    let hourlyCtr := pvMap.getHourlyCtr lib qd.hours
    let result := pvMap.count (heap pvMap.toBidBitmap) self.computeBuf.load qd.price.toUInt32
    { self with
      toAccumulators :=
        self.toAccumulators.accumulatePv pvMap result memory.getParam qd hourlyCtr }

/-- The unique-visitor half of the loop body of `Process`. -/
def processUv (heap : HeapWords) (psid : Str) : RequestHandler R :=
  match memory.getIndex.getUvBidBitmap psid with
  | none => self
  | some uvMap =>
    let self := self.getTarget uvMap.toBidBitmap
    let result := uvMap.count (heap uvMap.toBidBitmap) self.computeBuf.load qd.price.toUInt32
    { self with toAccumulators := self.toAccumulators.accumulateUv uvMap result memory.getParam }

/-- `Process`; `none` stands for `exit(1)`. -/
def process (heap : HeapWords) : Option (RequestHandler R) :=
  let self := self.clear
  let self := self.encodeTargeting memory qd
  match memory.getIndex.getUvMergeBitmap with
  -- the request ends the process: `uv merge bitmap is not exsit`
  | none => none
  | some uvMergeMap =>
    let self := self.getUvMergeRate qd uvMergeMap
    let self := qd.psids.foldl
      (fun self psid => (self.processPv lib memory qd heap psid).processUv memory qd heap psid) self
    let self := { self with toAccumulators := self.toAccumulators.calculate lib memory.getParam qd }
    some { self with jsonStr := self.toAccumulators.toJson lib }

/-- `GetJsonResult`. -/
def getJsonResult : Str := self.jsonStr

/-- A request: the shared memory, the query and what the heap holds around the bids. -/
structure Request (R : Type) where
  memory : SharedMemory R
  qd : QueryData
  heap : HeapWords

/-- Requests processed one after the other by one handler. -/
def processAll (requests : List (Request R)) : Option (RequestHandler R) :=
  requests.foldlM
    (fun handler request => handler.process lib request.memory request.qd request.heap) self

end RequestHandler

end FlowRetrieval
