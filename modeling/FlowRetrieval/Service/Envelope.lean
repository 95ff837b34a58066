/-
# The envelope of a report

In exact arithmetic, whatever is retrieved, a report stays between bounds that the parameters
set. A zero bid always wins, so that the unsigned differences in the win rate do not wrap
around, and the win rate of a position is below one. The bounds are kept by every position
that is added up, and `Calculate` clamps what is reported.

## Main results

* `Envelope.Grounded.total` — the bounds of the sums over the positions of a query
* `Envelope.bounded_process` — the bounds of what is counted and of what `Process` reports
-/
import FlowRetrieval.Service.Isolation

namespace FlowRetrieval

open Targeting Isolation RequestHandler

namespace Envelope

section Terms

variable {R : Type} [Double R]

/-- What `Accumulate` adds to the sum of page views for a page-view bitmap. -/
def pvTerm (bitmap : PvBidBitmap) (result : Result) (param : Param R) : R :=
  let share := Accumulators.winShare bitmap.toBidBitmap result
  if param.pvUseDelta then share * param.getPvDelta bitmap.getRate * (bitmap.request.toNat : R)
  else share * (bitmap.pv.toNat : R)

/-- The win rate of one position, as `Accumulate` computes it. -/
def psidWinRate (bitmap : PvBidBitmap) (result : Result) (param : Param R) : R :=
  let winRateWithZero := (result.winNum.toNat : R) / ((result.targetNum.toNat : R) + escapeZero)
  if param.winRateUseDelta then
    let winRateWithoutZero := ((result.winNum - result.zeroNum).toNat : R) /
      (((result.targetNum - result.zeroNum).toNat : R) + escapeZero)
    let delta := param.getWinRateDelta bitmap.getRate
    winRateWithZero * delta + winRateWithoutZero * (1.0 - delta)
  else winRateWithZero

/-- The weight of the win rate of one position. -/
def winRateWeight (bitmap : PvBidBitmap) (param : Param R) : R :=
  if param.winRateUsePos then (bitmap.request.toNat : R) else (bitmap.pv.toNat : R)

variable (acc : Accumulators R) (bitmap : PvBidBitmap) (result : Result) (param : Param R)
  (qd : QueryData) (ctr : R)

theorem pvSum_accumulatePv :
    (acc.accumulatePv bitmap result param qd ctr).pvSum =
      acc.pvSum + pvTerm bitmap result param := rfl

theorem winRateWeightedSum_accumulatePv :
    (acc.accumulatePv bitmap result param qd ctr).winRateWeightedSum =
      acc.winRateWeightedSum + psidWinRate bitmap result param * winRateWeight bitmap param := rfl

theorem winRateWeightsSum_accumulatePv :
    (acc.accumulatePv bitmap result param qd ctr).winRateWeightsSum =
      acc.winRateWeightsSum + winRateWeight bitmap param := rfl

/-- What `Calculate` reports as unique visitors. -/
theorem uv_calculate (lib : DoubleLib R) :
    (acc.calculate lib param qd).uv =
      let pv := (acc.calculate lib param qd).pv
      let uv := Double.ceil (acc.uvSum * acc.uvMergeRate / (duration : R))
      let uv := if pv * param.uvPvMaxRate < uv then Double.ceil (pv * param.uvPvMaxRate) else uv
      if uv < pv * param.uvPvMinRate then Double.ceil (pv * param.uvPvMinRate) else uv := by
  rw [Accumulators.calculate]
  simp only [apply_ite Accumulators.uv, apply_ite Accumulators.pv, ite_self]

/-- What `Calculate` reports as win rate. -/
theorem winRate_calculate (lib : DoubleLib R) :
    (acc.calculate lib param qd).winRate =
      let shown :=
        if 0.99 < (acc.calculate lib param qd).pv then
          acc.winRateWeightedSum / (acc.winRateWeightsSum + escapeZero)
        else acc.winRate
      let rate := lib.pow
        ((qd.price.toInt : R) / param.getWinRateThreshold qd.platform qd.advertType)
        (param.getWinRateScale qd.platform qd.advertType)
      let corrected :=
        if !param.winRateUseDelta then shown * (if rate < 1.0 then rate else 1.0) else shown
      if param.maxWinRate < corrected then param.maxWinRate else corrected := by
  rw [Accumulators.calculate]
  simp only [apply_ite Accumulators.winRate, apply_ite Accumulators.pv, ite_self]

end Terms

section Positions

/-- Step values, rates and a limit that bound every report. -/
structure Sound (param : Param ℚ) : Prop where
  pvSteps : ∀ value ∈ param.pvStepFunction.values, 0 ≤ value
  uvSteps : ∀ value ∈ param.uvStepFunction.values, 0 ≤ value
  winRateSteps : ∀ value ∈ param.winRateStepFunction.values, 0 ≤ value ∧ value ≤ 1
  uvPvMinRate : 0 ≤ param.uvPvMinRate
  uvPvMaxRate : 0 ≤ param.uvPvMaxRate
  maxWinRate : 0 ≤ param.maxWinRate

/-- Counters whose unsigned differences do not wrap around. -/
structure Ordered (result : Result) : Prop where
  zeroNum : result.zeroNum.toNat ≤ result.winNum.toNat
  winNum : result.winNum.toNat ≤ result.targetNum.toNat

/-- Whatever the compute buffer selects, a zero bid wins and a win is a target. -/
theorem ordered_count (b : BidBitmap) (stray : BidBitmap.Stray) (buffer : ComputeBuffer)
    (price : UInt32) : Ordered (b.count stray buffer.load price) := by
  have counts := b.counts_load stray buffer price (by decide)
  exact ⟨counts.zeroNum_le, counts.winNum_le⟩

/-- The share of a part is below one. -/
theorem share_mem_Ico {part whole : ℕ} (le : part ≤ whole) :
    (part : ℚ) / ((whole : ℚ) + escapeZero) ∈ Set.Ico (0 : ℚ) 1 := by
  have small := escapeZero_pos
  have le' : (part : ℚ) ≤ whole := Nat.cast_le.mpr le
  refine ⟨by positivity, ?_⟩
  rw [div_lt_one (by positivity)]
  linarith

/-- A mixture of two shares is one. -/
theorem mixture_mem_Ico {first second delta : ℚ} (one : first ∈ Set.Ico (0 : ℚ) 1)
    (two : second ∈ Set.Ico (0 : ℚ) 1) (nonneg : 0 ≤ delta) (le : delta ≤ 1) :
    first * delta + second * (1 - delta) ∈ Set.Ico (0 : ℚ) 1 := by
  have rest : 0 ≤ 1 - delta := sub_nonneg.mpr le
  refine ⟨add_nonneg (mul_nonneg one.1 nonneg) (mul_nonneg two.1 rest), ?_⟩
  calc
    _ ≤ max first second * delta + max first second * (1 - delta) := by
      gcongr
      · exact le_max_left _ _
      · exact le_max_right _ _
    _ = max first second := by ring
    _ < 1 := max_lt one.2 two.2

variable {param : Param ℚ} {result : Result}

theorem Sound.pvDelta (sound : Sound param) (x : ℚ) : 0 ≤ param.getPvDelta x :=
  param.pvStepFunction.getValue_induction x (by norm_num) sound.pvSteps

theorem Sound.uvDelta (sound : Sound param) (x : ℚ) : 0 ≤ param.getUvDelta x :=
  param.uvStepFunction.getValue_induction x (by norm_num) sound.uvSteps

theorem Sound.winRateDelta (sound : Sound param) (x : ℚ) :
    0 ≤ param.getWinRateDelta x ∧ param.getWinRateDelta x ≤ 1 :=
  param.winRateStepFunction.getValue_induction x (by norm_num) sound.winRateSteps

theorem Ordered.toNat_winNum_sub (ordered : Ordered result) :
    (result.winNum - result.zeroNum).toNat = result.winNum.toNat - result.zeroNum.toNat :=
  UInt32.toNat_sub_of_le _ _ (UInt32.le_iff_toNat_le.mpr ordered.zeroNum)

theorem Ordered.toNat_targetNum_sub (ordered : Ordered result) :
    (result.targetNum - result.zeroNum).toNat = result.targetNum.toNat - result.zeroNum.toNat :=
  UInt32.toNat_sub_of_le _ _ (UInt32.le_iff_toNat_le.mpr (ordered.zeroNum.trans ordered.winNum))

/-- The win rate of a position is a mixture of two shares. -/
theorem psidWinRate_mem_Ico (sound : Sound param) (ordered : Ordered result)
    (bitmap : PvBidBitmap) : psidWinRate bitmap result param ∈ Set.Ico (0 : ℚ) 1 := by
  have withZero := share_mem_Ico ordered.winNum
  rw [psidWinRate]
  dsimp only
  split
  · have withoutZero := share_mem_Ico (Nat.sub_le_sub_right ordered.winNum result.zeroNum.toNat)
    rw [← ordered.toNat_winNum_sub, ← ordered.toNat_targetNum_sub] at withoutZero
    obtain ⟨nonneg, leOne⟩ := sound.winRateDelta bitmap.getRate
    rw [show (1.0 : ℚ) = 1 by norm_num]
    exact mixture_mem_Ico withZero withoutZero nonneg leOne
  · exact withZero

end Positions

section Sums

/-- The bounds of the sums while the positions of a query are added up. -/
structure Grounded (acc : Accumulators ℚ) : Prop where
  pvSum : 0 ≤ acc.pvSum
  uvSum : 0 ≤ acc.uvSum
  uvMergeRate : 0 ≤ acc.uvMergeRate
  weighted : 0 ≤ acc.winRateWeightedSum
  capped : acc.winRateWeightedSum ≤ acc.winRateWeightsSum
  /-- The win rate is not set before `Calculate`. -/
  winRate : acc.winRate = 0

theorem winShare_nonneg (bitmap : BidBitmap) (result : Result) :
    (0 : ℚ) ≤ Accumulators.winShare bitmap result := by
  rw [Accumulators.winShare]
  positivity

theorem winRateWeight_nonneg (bitmap : PvBidBitmap) (param : Param ℚ) :
    0 ≤ winRateWeight bitmap param := by
  rw [winRateWeight]
  split <;> exact Nat.cast_nonneg _

variable {param : Param ℚ} {result : Result}

theorem pvTerm_nonneg (sound : Sound param) (bitmap : PvBidBitmap) (result : Result) :
    0 ≤ pvTerm bitmap result param := by
  have share := winShare_nonneg bitmap.toBidBitmap result
  have delta := sound.pvDelta bitmap.getRate
  unfold pvTerm
  dsimp only
  split <;> positivity

variable {acc : Accumulators ℚ}

theorem Grounded.accumulatePv (grounded : Grounded acc) (sound : Sound param)
    (ordered : Ordered result) (bitmap : PvBidBitmap) (qd : QueryData) (ctr : ℚ) :
    Grounded (acc.accumulatePv bitmap result param qd ctr) := by
  obtain ⟨nonneg, belowOne⟩ := psidWinRate_mem_Ico sound ordered bitmap
  have weight := winRateWeight_nonneg bitmap param
  refine ⟨?_, grounded.uvSum, grounded.uvMergeRate, ?_, ?_, grounded.winRate⟩
  · rw [pvSum_accumulatePv]
    exact add_nonneg grounded.pvSum (pvTerm_nonneg sound bitmap result)
  · rw [winRateWeightedSum_accumulatePv]
    exact add_nonneg grounded.weighted (mul_nonneg nonneg weight)
  · rw [winRateWeightedSum_accumulatePv, winRateWeightsSum_accumulatePv]
    exact add_le_add grounded.capped (mul_le_of_le_one_left weight belowOne.le)

theorem Grounded.accumulateUv (grounded : Grounded acc) (sound : Sound param)
    (bitmap : UvBidBitmap) (result : Result) :
    Grounded (acc.accumulateUv bitmap result param) := by
  have share := winShare_nonneg bitmap.toBidBitmap result
  have delta := sound.uvDelta bitmap.getRate
  unfold Accumulators.accumulateUv
  dsimp only
  split
  · have more : 0 ≤ acc.uvSum + Accumulators.winShare bitmap.toBidBitmap result *
        param.getUvDelta bitmap.getRate * (bitmap.request.toNat : ℚ) :=
      add_nonneg grounded.uvSum (by positivity)
    exact { grounded with uvSum := more }
  · have more : 0 ≤ acc.pvSum +
        Accumulators.winShare bitmap.toBidBitmap result * (bitmap.uv.toNat : ℚ) :=
      add_nonneg grounded.pvSum (by positivity)
    exact { grounded with pvSum := more }

variable (lib : DoubleLib ℚ) {memory : SharedMemory ℚ} (qd : QueryData) (heap : HeapWords)

/-- What is counted for a position of a query does not wrap around. -/
theorem ordered_retrieve (b : BidBitmap) : Ordered (Report.retrieve memory qd heap b) :=
  ordered_count b _ _ _

theorem Grounded.addPv (grounded : Grounded acc) (sound : Sound memory.getParam) (psid : Str) :
    Grounded (Report.addPv lib memory qd heap acc psid) := by
  rw [Report.addPv]
  split
  · exact grounded
  · exact grounded.accumulatePv sound (ordered_retrieve qd heap _) _ _ _

theorem Grounded.addUv (grounded : Grounded acc) (sound : Sound memory.getParam) (psid : Str) :
    Grounded (Report.addUv memory qd heap acc psid) := by
  rw [Report.addUv]
  split
  · exact grounded
  · exact grounded.accumulateUv sound _ _

/-- The bounds hold after any positions. -/
theorem Grounded.total (grounded : Grounded acc) (sound : Sound memory.getParam)
    (psids : List Str) : Grounded (Report.total lib memory qd heap acc psids) := by
  induction psids generalizing acc with
  | nil => exact grounded
  | cons psid psids ih =>
    exact ih ((grounded.addPv lib qd heap sound psid).addUv qd heap sound psid)

/-- Only counters that are not negative are added up. -/
theorem sumRowUv_nonneg (uvMergeMap : UvMergeBitmap) (rows : List Int32) :
    (0 : ℚ) ≤ RequestHandler.sumRowUv uvMergeMap rows := by
  rw [RequestHandler.sumRowUv]
  induction rows using List.reverseRecOn with
  | nil => norm_num
  | append_singleton rows row ih =>
    rw [List.foldl_append, List.foldl_cons, List.foldl_nil]
    dsimp only
    split
    · exact ih
    · rename_i counter
      rw [Int32.lt_iff_toInt_lt, not_lt] at counter
      exact add_nonneg ih (Int.cast_nonneg counter)

/-- The bounds hold before the first position. -/
theorem grounded_start (uvMergeMap : UvMergeBitmap) :
    Grounded (Report.start qd uvMergeMap : Accumulators ℚ) where
  pvSum := by norm_num [Report.start, Accumulators.zero]
  uvSum := by norm_num [Report.start, Accumulators.zero]
  uvMergeRate := by
    have small := escapeZero_pos
    have sum := sumRowUv_nonneg uvMergeMap (RequestHandler.mergeRows uvMergeMap qd.psids)
    have union := uvMergeMap.countMask_load_nonneg
      (uvMergeMap.union (RequestHandler.mergeRows uvMergeMap qd.psids) ptr1 Report.blank)
      (by decide)
    have union' := Int.cast_nonneg (R := ℚ) union
    exact div_nonneg (add_nonneg union' small.le) (add_nonneg sum small.le)
  weighted := by norm_num [Report.start, Accumulators.zero]
  capped := le_rfl
  winRate := by norm_num [Report.start, Accumulators.zero]

end Sums

section Calculate

/-- A report within the bounds that the parameters set. -/
structure InEnvelope (param : Param ℚ) (acc : Accumulators ℚ) : Prop where
  pv : ∃ n : ℕ, acc.pv = n
  uv : acc.uv = max (min (⌈acc.uvSum * acc.uvMergeRate / 7⌉ : ℚ) ⌈acc.pv * param.uvPvMaxRate⌉)
    ⌈acc.pv * param.uvPvMinRate⌉
  uvLower : acc.pv * param.uvPvMinRate ≤ acc.uv
  uvUpper : acc.uv ≤ ⌈acc.pv * param.uvPvMaxRate⌉
  winRate : acc.winRate ∈ Set.Icc 0 param.maxWinRate

/-- The factor with which `Calculate` corrects the win rate; a factor that is not below one,
a NaN among them, leaves it as it is. -/
def priceFactor (lib : DoubleLib ℚ) (param : Param ℚ) (qd : QueryData) : ℚ :=
  lib.pow ((qd.price.toInt : ℚ) / param.getWinRateThreshold qd.platform qd.advertType)
    (param.getWinRateScale qd.platform qd.advertType)

/-- An integer is above a bound iff it is above the next integer. -/
theorem clamp_above (n : ℤ) (bound : ℚ) :
    (if bound < n then (⌈bound⌉ : ℚ) else n) = min (n : ℚ) ⌈bound⌉ := by
  split
  · rename_i above
    exact (min_eq_right (Int.cast_le.mpr (Int.ceil_le.mpr above.le))).symm
  · rename_i below
    exact (min_eq_left ((not_lt.mp below).trans (Int.le_ceil bound))).symm

theorem clamp_below (n : ℤ) (bound : ℚ) :
    (if (n : ℚ) < bound then (⌈bound⌉ : ℚ) else n) = max (n : ℚ) ⌈bound⌉ := by
  split
  · rename_i below
    exact (max_eq_right (below.le.trans (Int.le_ceil bound))).symm
  · rename_i above
    exact (max_eq_left (Int.cast_le.mpr (Int.ceil_le.mpr (not_lt.mp above)))).symm

variable (lib : DoubleLib ℚ) (param : Param ℚ) (qd : QueryData) {acc : Accumulators ℚ}

theorem pv_calculate_eq (acc : Accumulators ℚ) :
    (acc.calculate lib param qd).pv = ⌈acc.pvSum / 7⌉ := pv_calculate lib param acc qd

/-- The two rate limits clamp the unique visitors. -/
theorem uv_calculate_eq (acc : Accumulators ℚ) :
    (acc.calculate lib param qd).uv =
      max (min (⌈acc.uvSum * acc.uvMergeRate / 7⌉ : ℚ)
          ⌈(acc.calculate lib param qd).pv * param.uvPvMaxRate⌉)
        ⌈(acc.calculate lib param qd).pv * param.uvPvMinRate⌉ := by
  generalize visitors : acc.uvSum * acc.uvMergeRate / 7 = x
  have start : (Double.ceil (acc.uvSum * acc.uvMergeRate / ((duration : ℕ) : ℚ)) : ℚ) = ⌈x⌉ := by
    rw [← visitors]
    rfl
  rw [uv_calculate, start]
  dsimp only [Double.ceil]
  rw [clamp_above, ← Int.cast_min, clamp_below]

theorem sums_calculate (acc : Accumulators ℚ) :
    (acc.calculate lib param qd).uvSum = acc.uvSum ∧
      (acc.calculate lib param qd).uvMergeRate = acc.uvMergeRate := by
  rw [Accumulators.calculate]
  dsimp only
  split <;> split <;> exact ⟨rfl, rfl⟩

/-- The average win rate of a query with enough page views to display it. -/
def displayed (acc reported : Accumulators ℚ) : ℚ :=
  if 0.99 < reported.pv then acc.winRateWeightedSum / (acc.winRateWeightsSum + escapeZero)
  else acc.winRate

/-- The limit caps the win rate, which is corrected unless it uses the delta function. -/
theorem winRate_calculate_eq (acc : Accumulators ℚ) :
    (acc.calculate lib param qd).winRate =
      min (if param.winRateUseDelta then displayed acc (acc.calculate lib param qd)
        else displayed acc (acc.calculate lib param qd) * min (priceFactor lib param qd) 1)
        param.maxWinRate := by
  have cap (limit rate : ℚ) : (if limit < rate then limit else rate) = min rate limit := by
    rw [min_comm, min_def_lt]
  have one : (1.0 : ℚ) = 1 := by norm_num
  rw [winRate_calculate]
  dsimp only
  rw [cap, one, ← min_def_lt]
  cases param.winRateUseDelta <;> rfl

variable {param}

theorem Grounded.displayed_nonneg (grounded : Grounded acc) (reported : Accumulators ℚ) :
    0 ≤ displayed acc reported := by
  have weights := grounded.weighted.trans grounded.capped
  rw [displayed]
  split
  · exact div_nonneg grounded.weighted (add_nonneg weights escapeZero_pos.le)
  · exact grounded.winRate.ge

theorem Grounded.winRate_mem_Icc (grounded : Grounded acc) (sound : Sound param)
    (factor : 0 ≤ priceFactor lib param qd) :
    (acc.calculate lib param qd).winRate ∈ Set.Icc 0 param.maxWinRate := by
  have shown := grounded.displayed_nonneg (acc.calculate lib param qd)
  rw [winRate_calculate_eq]
  refine ⟨le_min ?_ sound.maxWinRate, min_le_right _ _⟩
  split
  · exact shown
  · exact mul_nonneg shown (le_min factor zero_le_one)

/-- `Calculate` brings every sums that are within their bounds into the envelope. -/
theorem Grounded.inEnvelope (grounded : Grounded acc) (sound : Sound param)
    (order : param.uvPvMinRate ≤ param.uvPvMaxRate) (factor : 0 ≤ priceFactor lib param qd) :
    InEnvelope param (acc.calculate lib param qd) := by
  have views : 0 ≤ acc.pvSum / 7 := div_nonneg grounded.pvSum (by norm_num)
  have pv := pv_calculate_eq lib param qd acc
  have pvNonneg : 0 ≤ (acc.calculate lib param qd).pv := by
    rw [pv]
    exact Int.cast_nonneg (Int.ceil_nonneg views)
  have uv := uv_calculate_eq lib param qd acc
  obtain ⟨uvSum, uvMergeRate⟩ := sums_calculate lib param qd acc
  refine ⟨⟨⌈acc.pvSum / 7⌉.toNat, ?_⟩, ?_, ?_, ?_, grounded.winRate_mem_Icc lib qd sound factor⟩
  · rw [pv]
    exact_mod_cast (Int.toNat_of_nonneg (Int.ceil_nonneg views)).symm
  · rw [uvSum, uvMergeRate]
    exact uv
  · rw [uv]
    exact (Int.le_ceil _).trans (le_max_right _ _)
  · rw [uv]
    refine max_le (min_le_right _ _) (Int.cast_le.mpr (Int.ceil_le_ceil ?_))
    exact mul_le_mul_of_nonneg_left order pvNonneg

end Calculate

section Process

/-- Whatever the heap holds around the bids, nothing that is counted wraps around, the win rate
of every position is below one, and every report lies in its envelope. -/
structure Bounded (lib : DoubleLib ℚ) (memory : SharedMemory ℚ) (qd : QueryData) : Prop where
  noWrap : ∀ (b : BidBitmap) (stray : BidBitmap.Stray) (buffer : ComputeBuffer) (price : UInt32),
    (b.count stray buffer.load price).zeroNum ≤ (b.count stray buffer.load price).winNum ∧
      (b.count stray buffer.load price).zeroNum ≤ (b.count stray buffer.load price).targetNum
  psidWinRate : ∀ (bitmap : PvBidBitmap) (stray : BidBitmap.Stray) (buffer : ComputeBuffer)
    (price : UInt32),
    psidWinRate bitmap (bitmap.count stray buffer.load price) memory.getParam ∈ Set.Ico (0 : ℚ) 1
  reported : ∀ (heap : HeapWords) (self done : RequestHandler ℚ),
    self.process lib memory qd heap = some done → InEnvelope memory.getParam done.toAccumulators

/-- With sound parameters every report lies in its envelope, whatever the library computes
as a factor that is not negative. -/
theorem bounded_process (lib : DoubleLib ℚ) (memory : SharedMemory ℚ) (qd : QueryData)
    (sound : Sound memory.getParam)
    (order : memory.getParam.uvPvMinRate ≤ memory.getParam.uvPvMaxRate)
    (factor : 0 ≤ priceFactor lib memory.getParam qd) : Bounded lib memory qd where
  noWrap b stray buffer price := by
    have ordered := ordered_count b stray buffer price
    exact ⟨UInt32.le_iff_toNat_le.mpr ordered.zeroNum,
      UInt32.le_iff_toNat_le.mpr (ordered.zeroNum.trans ordered.winNum)⟩
  psidWinRate bitmap stray buffer price :=
    psidWinRate_mem_Ico sound (ordered_count bitmap.toBidBitmap stray buffer price) bitmap
  reported heap self done finished := by
    obtain ⟨uvMergeMap, -, calculated⟩ := toAccumulators_of_process lib heap finished
    rw [calculated]
    have sums := (grounded_start qd uvMergeMap).total lib qd heap sound qd.psids
    exact sums.inEnvelope lib qd sound order factor

/-- The parameters of an empty file are sound. -/
theorem sound_empty : Sound .empty := by
  constructor <;> norm_num [Param.empty, StepFunction.empty]

/-- The report of one unique-visitor bitmap. -/
theorem bounded_single :
    Bounded DoubleLib.integral (serving (withUv [97]) .empty) (singleQuery [97]) ∧
      ∃ done, blankHandler.process DoubleLib.integral (serving (withUv [97]) .empty)
        (singleQuery [97]) (fun _ _ => 0) = some done ∧ done.pv = 1 := by
  have factor : 0 ≤ priceFactor DoubleLib.integral .empty (singleQuery [97]) := by
    have scale : (Param.empty : Param ℚ).getWinRateScale (singleQuery [97]).platform
        (singleQuery [97]).advertType = 0.0 := rfl
    have zero : (0.0 : ℚ) = 0 := by norm_num
    have one (x : ℚ) : DoubleLib.integral.pow x 0 = 1 := zpow_zero x
    rw [priceFactor, scale, zero, one]
    exact zero_le_one
  refine ⟨bounded_process _ _ _ sound_empty le_rfl factor, ?_⟩
  obtain ⟨done, finished, pv⟩ := process_withUv DoubleLib.integral .empty [97] blankHandler
    (fun _ _ => 0) rfl (singleQuery [97]) rfl 1 (by rw [retrieve_single]; rfl)
  exact ⟨done, finished, pv.trans Nat.cast_one⟩

end Process

end Envelope

end FlowRetrieval
