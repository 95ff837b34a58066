/-
# Raising the bid

Two runs of `Process` for queries that differ only in the price visit the same samples. The
higher price wins at least what the lower one wins, and in exact arithmetic every step from
there to the report keeps the order: the shares, the mixture of the two win rates, the sums
over the positions, the ceilings, the limits and the threshold below which the averages are
not displayed. In bounds both runs count the same bids; elsewhere they have to find the same
words around them.

## Main results

* `Outbid.Outbids.total` — the order of the sums over the positions of a query
* `Outbid.raised_process` — a higher bid never lowers the forecast
-/
import FlowRetrieval.Service.Envelope

namespace FlowRetrieval

open Targeting Isolation RequestHandler Envelope

namespace Outbid

section Counting

/-- The same targets and the same zero bids, with at least as many wins. -/
structure WinsMore (result result' : Result) : Prop where
  winNum : result.winNum.toNat ≤ result'.winNum.toNat
  targetNum : result.targetNum = result'.targetNum
  zeroNum : result.zeroNum = result'.zeroNum

/-- The query with another price. -/
def withPrice (qd : QueryData) (price : Int32) : QueryData := { qd with price := price }

variable {qd : QueryData} {price : Int32}

/-- A higher price is tested against the same samples. -/
theorem winsMore_retrieve (memory : SharedMemory ℚ) (heap : HeapWords) (nonneg : 0 ≤ qd.price)
    (raised : qd.price ≤ price) (b : BidBitmap) :
    WinsMore (Report.retrieve memory qd heap b)
      (Report.retrieve memory (withPrice qd price) heap b) := by
  have higher := UInt32.le_iff_toNat_le.mp (Int32.toUInt32_le nonneg raised)
  have counts := b.counts_load (heap b)
    (target b.toBitmap (Report.targetings memory qd) Report.blank) qd.price.toUInt32 (by decide)
  have counts' := b.counts_load (heap b)
    (target b.toBitmap (Report.targetings memory qd) Report.blank) price.toUInt32 (by decide)
  obtain ⟨winNum, targetNum, zeroNum⟩ := counts.mono counts' higher
  exact ⟨winNum, targetNum, zeroNum⟩

variable {param : Param ℚ} {result result' : Result}

theorem WinsMore.winShare_le (more : WinsMore result result') (bitmap : BidBitmap) :
    (Accumulators.winShare bitmap result : ℚ) ≤ Accumulators.winShare bitmap result' := by
  have wins : (result.winNum.toNat : ℚ) ≤ result'.winNum.toNat := Nat.cast_le.mpr more.winNum
  have one : (1.0 : ℚ) = 1 := by norm_num
  unfold Accumulators.winShare
  rw [one]
  gcongr

theorem WinsMore.pvTerm_le (more : WinsMore result result') (sound : Sound param)
    (bitmap : PvBidBitmap) : pvTerm bitmap result param ≤ pvTerm bitmap result' param := by
  have share := more.winShare_le bitmap.toBidBitmap
  have delta := sound.pvDelta bitmap.getRate
  unfold pvTerm
  dsimp only
  split <;> gcongr

/-- More wins among the same targets have a greater share, with and without the zero bids. -/
theorem WinsMore.psidWinRate_le (more : WinsMore result result') (sound : Sound param)
    (ordered : Ordered result) (ordered' : Ordered result') (bitmap : PvBidBitmap) :
    psidWinRate bitmap result param ≤ psidWinRate bitmap result' param := by
  have small := escapeZero_pos
  have wins := more.winNum
  have nonzero : (result.winNum - result'.zeroNum).toNat ≤
      (result'.winNum - result'.zeroNum).toNat := by
    rw [ordered'.toNat_winNum_sub, ← more.zeroNum, ordered.toNat_winNum_sub]
    exact Nat.sub_le_sub_right wins _
  obtain ⟨delta, leOne⟩ := sound.winRateDelta bitmap.getRate
  have rest : (0 : ℚ) ≤ 1.0 - param.getWinRateDelta bitmap.getRate := by norm_num [leOne]
  unfold psidWinRate
  rw [more.targetNum, more.zeroNum]
  dsimp only
  split <;> gcongr

end Counting

section Sums

/-- Sums of the same positions, with more wins. -/
structure Outbids (acc acc' : Accumulators ℚ) : Prop where
  pvSum : acc.pvSum ≤ acc'.pvSum
  uvSum : acc.uvSum ≤ acc'.uvSum
  uvMergeRate : acc.uvMergeRate = acc'.uvMergeRate
  weighted : acc.winRateWeightedSum ≤ acc'.winRateWeightedSum
  weights : acc.winRateWeightsSum = acc'.winRateWeightsSum

variable {param : Param ℚ} {result result' : Result} {acc acc' : Accumulators ℚ}

theorem Outbids.accumulatePv (outbids : Outbids acc acc') (more : WinsMore result result')
    (sound : Sound param) (ordered : Ordered result) (ordered' : Ordered result')
    (bitmap : PvBidBitmap) (qd qd' : QueryData) (ctr : ℚ) :
    Outbids (acc.accumulatePv bitmap result param qd ctr)
      (acc'.accumulatePv bitmap result' param qd' ctr) := by
  refine ⟨?_, outbids.uvSum, outbids.uvMergeRate, ?_, ?_⟩
  · rw [pvSum_accumulatePv, pvSum_accumulatePv]
    exact add_le_add outbids.pvSum (more.pvTerm_le sound bitmap)
  · rw [winRateWeightedSum_accumulatePv, winRateWeightedSum_accumulatePv]
    exact add_le_add outbids.weighted (mul_le_mul_of_nonneg_right
      (more.psidWinRate_le sound ordered ordered' bitmap) (winRateWeight_nonneg bitmap param))
  · rw [winRateWeightsSum_accumulatePv, winRateWeightsSum_accumulatePv, outbids.weights]

theorem Outbids.accumulateUv (outbids : Outbids acc acc') (more : WinsMore result result')
    (sound : Sound param) (bitmap : UvBidBitmap) :
    Outbids (acc.accumulateUv bitmap result param) (acc'.accumulateUv bitmap result' param) := by
  have share := more.winShare_le bitmap.toBidBitmap
  have delta := sound.uvDelta bitmap.getRate
  unfold Accumulators.accumulateUv
  dsimp only
  split
  · refine { outbids with uvSum := add_le_add outbids.uvSum ?_ }
    gcongr
  · refine { outbids with pvSum := add_le_add outbids.pvSum ?_ }
    gcongr

variable (lib : DoubleLib ℚ) {memory : SharedMemory ℚ} {qd : QueryData} {price : Int32}
  (heap : HeapWords)

theorem Outbids.addPv (outbids : Outbids acc acc') (sound : Sound memory.getParam)
    (nonneg : 0 ≤ qd.price) (raised : qd.price ≤ price) (psid : Str) :
    Outbids (Report.addPv lib memory qd heap acc psid)
      (Report.addPv lib memory (withPrice qd price) heap acc' psid) := by
  unfold Report.addPv
  split
  · exact outbids
  · exact outbids.accumulatePv (winsMore_retrieve memory heap nonneg raised _) sound
      (ordered_retrieve _ _ _) (ordered_retrieve _ _ _) _ _ _ _

theorem Outbids.addUv (outbids : Outbids acc acc') (sound : Sound memory.getParam)
    (nonneg : 0 ≤ qd.price) (raised : qd.price ≤ price) (psid : Str) :
    Outbids (Report.addUv memory qd heap acc psid)
      (Report.addUv memory (withPrice qd price) heap acc' psid) := by
  unfold Report.addUv
  split
  · exact outbids
  · exact outbids.accumulateUv (winsMore_retrieve memory heap nonneg raised _) sound _

/-- Position by position the sums keep their order. -/
theorem Outbids.total (outbids : Outbids acc acc') (sound : Sound memory.getParam)
    (nonneg : 0 ≤ qd.price) (raised : qd.price ≤ price) (psids : List Str) :
    Outbids (Report.total lib memory qd heap acc psids)
      (Report.total lib memory (withPrice qd price) heap acc' psids) := by
  induction psids generalizing acc acc' with
  | nil => exact outbids
  | cons psid psids ih =>
    exact ih ((outbids.addPv lib heap sound nonneg raised psid).addUv heap sound nonneg raised psid)

end Sums

section Process

variable (lib : DoubleLib ℚ) {param : Param ℚ} {acc acc' : Accumulators ℚ} {qd qd' : QueryData}

theorem Outbids.pv_le (outbids : Outbids acc acc') :
    (acc.calculate lib param qd).pv ≤ (acc'.calculate lib param qd').pv := by
  have pvSum := outbids.pvSum
  rw [pv_calculate_eq, pv_calculate_eq]
  gcongr

theorem Outbids.uv_le (outbids : Outbids acc acc') (grounded : Grounded acc)
    (sound : Sound param) :
    (acc.calculate lib param qd).uv ≤ (acc'.calculate lib param qd').uv := by
  have pv : (acc.calculate lib param qd).pv ≤ (acc'.calculate lib param qd').pv :=
    outbids.pv_le lib
  have uvSum := outbids.uvSum
  have uvMergeRate := grounded.uvMergeRate
  have minRate := sound.uvPvMinRate
  have maxRate := sound.uvPvMaxRate
  rw [uv_calculate_eq, uv_calculate_eq, ← outbids.uvMergeRate]
  gcongr

/-- Page views enough to display the averages are still enough after the raise. -/
theorem Outbids.displayed_le (outbids : Outbids acc acc') (grounded : Grounded acc)
    (grounded' : Grounded acc') {reported reported' : Accumulators ℚ}
    (pv : reported.pv ≤ reported'.pv) : displayed acc reported ≤ displayed acc' reported' := by
  have small := escapeZero_pos
  have weights := grounded'.weighted.trans grounded'.capped
  have weighted := outbids.weighted
  by_cases enough : 0.99 < reported.pv
  · rw [displayed, displayed, if_pos enough, if_pos (enough.trans_le pv), outbids.weights]
    gcongr
  · rw [displayed, if_neg enough, grounded.winRate]
    exact grounded'.displayed_nonneg reported'

theorem Outbids.winRate_le (outbids : Outbids acc acc') (grounded : Grounded acc)
    (grounded' : Grounded acc') (useDelta : param.winRateUseDelta = true) :
    (acc.calculate lib param qd).winRate ≤ (acc'.calculate lib param qd').winRate := by
  rw [winRate_calculate_eq, winRate_calculate_eq, if_pos useDelta, if_pos useDelta]
  exact min_le_min_right _ (outbids.displayed_le grounded grounded' (outbids.pv_le lib))

/-- Raising the bid never lowers the forecast. The prices are not negative, as `QueryParser`
rejects others. -/
theorem raised_process (lib : DoubleLib ℚ) (memory : SharedMemory ℚ) (qd : QueryData)
    (price : Int32) (sound : Sound memory.getParam)
    (useDelta : memory.getParam.winRateUseDelta = true) (nonneg : 0 ≤ qd.price)
    (raised : qd.price ≤ price) (heap heap' : HeapWords)
    (words : InBounds computeBufferSize memory qd ∨ heap = heap') :
    ∀ self other one two : RequestHandler ℚ, self.process lib memory qd heap = some one →
      other.process lib memory (withPrice qd price) heap' = some two →
        one.pv ≤ two.pv ∧ one.uv ≤ two.uv ∧ one.winRate ≤ two.winRate := by
  intro self other one two finished finished'
  obtain ⟨uvMergeMap, stored, calculated⟩ := toAccumulators_of_process lib heap finished
  obtain ⟨uvMergeMap', stored', calculated'⟩ := toAccumulators_of_process lib heap' finished'
  obtain rfl := Option.some.inj (stored.symm.trans stored')
  -- the first run would have had the same sums with the words of the second
  have same : Report.total lib memory qd heap (Report.start qd uvMergeMap) qd.psids =
      Report.total lib memory qd heap' (Report.start qd uvMergeMap) qd.psids := by
    obtain bounded | rfl := words
    · exact bounded.total_eq heap heap' (List.Subset.refl _) _
    · rfl
  rw [calculated, calculated', same]
  -- before the first position the sums of both runs are the same
  have start : Outbids (Report.start qd uvMergeMap)
      (Report.start (withPrice qd price) uvMergeMap) := ⟨le_rfl, le_rfl, rfl, le_rfl, rfl⟩
  have outbids := start.total lib heap' sound nonneg raised qd.psids
  have grounded := (grounded_start qd uvMergeMap).total lib qd heap' sound qd.psids
  have grounded' := (grounded_start (withPrice qd price) uvMergeMap).total lib
    (withPrice qd price) heap' sound qd.psids
  exact ⟨outbids.pv_le lib, outbids.uv_le lib grounded sound,
    outbids.winRate_le lib grounded grounded' useDelta⟩

/-- Parameters that use the delta function for the win rate. -/
def deltaParam : Param ℚ := { Param.empty with winRateUseDelta := true }

/-- The reports of one unique-visitor bitmap with bid 5 for the prices 5 and 6. -/
theorem raised_single :
    ∃ one two,
      blankHandler.process DoubleLib.integral (serving (withUv [97]) deltaParam)
        (singleQuery [97]) (fun _ _ => 9) = some one ∧
      blankHandler.process DoubleLib.integral (serving (withUv [97]) deltaParam)
        (withPrice (singleQuery [97]) 6) (fun _ _ => 0) = some two ∧
      one.pv ≤ two.pv ∧ one.uv ≤ two.uv ∧ one.winRate ≤ two.winRate := by
  have answers (qd : QueryData) (heap : HeapWords) : (blankHandler.process DoubleLib.integral
      (serving (withUv [97]) deltaParam) qd heap).isSome := by
    rw [isSome_process]
    exact congrArg (fun index : Index => index.getUvMergeBitmap.isSome) (withUv_eq [97])
  obtain ⟨one, finished⟩ := Option.isSome_iff_exists.mp (answers (singleQuery [97]) fun _ _ => 9)
  obtain ⟨two, finished'⟩ :=
    Option.isSome_iff_exists.mp (answers (withPrice (singleQuery [97]) 6) fun _ _ => 0)
  have sound : Sound (serving (withUv [97]) deltaParam).getParam := { sound_empty with }
  exact ⟨one, two, finished, finished', raised_process _ _ _ _ sound rfl (by decide) (by decide)
    _ _ (.inl (inBounds_withUv deltaParam [97])) _ _ _ _ finished finished'⟩

end Process

end Outbid

end FlowRetrieval
