/-
# Retrieval

After `EncodeTargeting` and `GetTarget`, `Count` visits the samples that a scan of all
samples finds to qualify. When no name of the query is known, `GetTarget` sets every bit of
the row, and `Count` also visits its padding.

## Main results

* `RequestHandler.retrieval_eq_scan` — retrieval equals a scan of the samples
* `RequestHandler.countsAll_iff` — when a query without effective targeting counts every
  sample once
-/
import FlowRetrieval.Index.Records
import FlowRetrieval.Service.RequestHandler
import Mathlib.Algebra.BigOperators.Fin
import Mathlib.Data.List.GetD

namespace FlowRetrieval

open CS.BitPacking Targeting BidBitmap

namespace RequestHandler

variable {R : Type} [Double R] (handler : RequestHandler R) (memory : SharedMemory R)
  (qd : QueryData)

/-- The buffer from which `Count` reads after a handler has been cleared, has encoded the
targeting of the query and has applied it to a bitmap. -/
def mask (b : BidBitmap) : ℕ → UInt8 :=
  ((handler.clear.encodeTargeting memory qd).getTarget b).computeBuf.load

theorem mask_eq (b : BidBitmap) :
    handler.mask memory qd b =
      (target b.toBitmap (encode memory.getTargetId qd.targetings) handler.computeBuf).load := by
  rw [mask, getTarget]
  rw [targetings_encodeTargeting]
  rfl

section Scan

variable {self b : BidBitmap} {cols : List (List UInt32)} {bids : List UInt16} {height : UInt32}

/-- In every column of a padded row the targeted mask says whether the sample qualifies. -/
theorem bitAt_mask (generated : self.generate cols bids height = some b)
    (targeted : encode memory.getTargetId qd.targetings ≠ [])
    (rows : ∀ array ∈ encode memory.getTargetId qd.targetings, ∀ row ∈ array,
      row.toUInt32 < height)
    (noWrap : b.width.toNat * height.toNat < 2 ^ 32) (fits : b.width.toNat ≤ computeBufferSize)
    {c : ℕ} (inside : c < 8 * b.width.toNat) :
    bitAt (handler.mask memory qd b) c = true ↔
      Qualifies memory.getTargetId qd.targetings (cols.getD c []) := by
  have base := (generate_eq_some generated).1
  have tall := Bitmap.height_of_generate base
  have cells (row : UInt32) (below : row < height) :
      b.cell row c = decide (row ∈ cols.getD c []) :=
    Bitmap.cell_of_generate base (by rwa [tall]) inside (by rwa [tall])
  -- the mask selects a column when every group has a row with that bit
  rw [mask_eq, bitAt_target b.toBitmap _ fits inside targeted fun _ => ne_nil_of_mem_encode,
    ← all_encode_iff]
  simp only [List.all_eq_true, List.any_eq_true]
  refine forall₂_congr fun array member => exists_congr fun row => and_congr_right fun inArray => ?_
  rw [cells _ (rows array member row inArray)]

/-- With effective targeting `Count` visits the samples that qualify. -/
theorem mem_visited_targeted (generated : self.generate cols bids height = some b)
    (targeted : encode memory.getTargetId qd.targetings ≠ [])
    (rows : ∀ array ∈ encode memory.getTargetId qd.targetings, ∀ row ∈ array,
      row.toUInt32 < height)
    (noWrap : b.width.toNat * height.toNat < 2 ^ 32) (fits : b.width.toNat ≤ computeBufferSize)
    (c : ℕ) :
    c ∈ b.visited (handler.mask memory qd b) ↔
      c ∈ (Finset.range b.size.toNat).filter fun c =>
        Qualifies memory.getTargetId qd.targetings (cols.getD c []) := by
  have base := (generate_eq_some generated).1
  have columns := Bitmap.size_of_generate base
  have padded := Bitmap.width_of_generate base
  -- columns of the padded row, samples and padding alike
  have bits {c : ℕ} (inside : c < 8 * b.width.toNat) :=
    handler.bitAt_mask memory qd generated targeted rows noWrap fits inside
  rw [computeBufferSize] at fits
  rw [mem_visited (by omega), Finset.mem_filter, Finset.mem_range]
  constructor
  · rintro ⟨inside, set⟩
    rw [bits inside] at set
    refine ⟨?_, set⟩
    -- the columns behind the samples are padding, which has no targets
    by_contra padding
    rw [List.getD_eq_default _ _ (by omega)] at set
    exact not_qualifies_nil targeted set
  · rintro ⟨sample, qualifies⟩
    have inside : c < 8 * b.width.toNat := by omega
    exact ⟨inside, (bits inside).mpr qualifies⟩

/-- Retrieval equals a scan. For a generated bitmap and a query with effective targeting,
`Count` visits every sample that qualifies once and nothing else, and its counters are those
of the samples that qualify, whatever the heap holds around the bids. -/
theorem retrieval_eq_scan (generated : self.generate cols bids height = some b)
    (targeted : (handler.clear.encodeTargeting memory qd).targetings ≠ [])
    (rows : ∀ array ∈ (handler.clear.encodeTargeting memory qd).targetings, ∀ row ∈ array,
      row.toUInt32 < height)
    (noWrap : b.width.toNat * height.toNat < 2 ^ 32) (fits : b.width.toNat ≤ computeBufferSize)
    (stray : Stray) (price : UInt32) :
    (∀ c < b.size.toNat, (b.visited (handler.mask memory qd b)).count c =
        if Qualifies memory.getTargetId qd.targetings (cols.getD c []) then 1 else 0) ∧
      (∀ c ∈ b.visited (handler.mask memory qd b), c < b.size.toNat) ∧
      Counts (b.count stray (handler.mask memory qd b) price) (fun c => bids.getD c 0) price
        ((Finset.range b.size.toNat).filter fun c =>
          Qualifies memory.getTargetId qd.targetings (cols.getD c [])) := by
  rw [targetings_encodeTargeting] at targeted rows
  have visits := handler.mem_visited_targeted memory qd generated targeted rows noWrap fits
  refine ⟨?_, ?_, ?_⟩
  · intro c sample
    rw [(b.visited_nodup _).count]
    simp only [visits, Finset.mem_filter, Finset.mem_range, sample, true_and]
  · intro c visited
    exact Finset.mem_range.mp (Finset.mem_filter.mp ((visits c).mp visited)).1
  · obtain ⟨base, same, paired⟩ := generate_eq_some generated
    have padded := Bitmap.width_of_generate base
    rw [computeBufferSize] at fits
    rw [← same]
    apply b.counts_of_inside stray _ price visits
    intro c member
    have sample := Finset.mem_range.mp (Finset.mem_filter.mp member).1
    exact ⟨by omega, by omega⟩

end Scan

section CountsAll

/-- `Count` counts every sample: the target number is the size, the bid sum is the sum of
all bids, and every index at which it reads `bids_` is inside. -/
structure CountsAll (b : BidBitmap) (stray : Stray) (buffer : ℕ → UInt8) (price : UInt32) :
    Prop where
  targetNum : (b.count stray buffer price).targetNum = b.size
  bidSum : (b.count stray buffer price).bidSum.toNat = (b.bids.map UInt16.toNat).sum
  inside : b.Inside buffer

/-- Without effective targeting the mask has every bit of the row set, as far as the
compute buffer reaches. -/
theorem bitAt_mask_untargeted (untargeted : encode memory.getTargetId qd.targetings = [])
    {b : BidBitmap} {c : ℕ} (inside : c < 8 * b.width.toNat) :
    bitAt (handler.mask memory qd b) c = decide (c < 8 * (computeBufferSize * 2)) := by
  rw [mask_eq, untargeted, target, ← bitAt_ptr1]
  simp only [bitAt]
  by_cases reached : c < 8 * (computeBufferSize * 2)
  · rw [CS.ByteMemory.load_fill _ _ (by omega) (by unfold ptr1; omega),
      bitOf_ff (by omega), decide_eq_true reached]
  · rw [CS.ByteMemory.load_of_ge _ (by unfold ptr1; omega), bitOf_zero, decide_eq_false reached]

variable {self b : BidBitmap} {cols : List (List UInt32)} {bids : List UInt16} {height : UInt32}

/-- Without effective targeting `Count` visits the whole row, padding included, as far as
the compute buffer reaches. -/
theorem mem_visited_untargeted (generated : self.generate cols bids height = some b)
    (untargeted : encode memory.getTargetId qd.targetings = []) (c : ℕ) :
    c ∈ b.visited (handler.mask memory qd b) ↔
      c ∈ Finset.range (min (64 * ((b.size.toNat + 63) / 64)) 160000000) := by
  have padded := Bitmap.width_of_generate (generate_eq_some generated).1
  have bounded := b.size.toNat_lt
  rw [mem_visited (by omega), Finset.mem_range, Nat.lt_min]
  constructor
  · rintro ⟨inside, set⟩
    rw [handler.bitAt_mask_untargeted memory qd untargeted inside, decide_eq_true_eq,
      computeBufferSize] at set
    omega
  · rintro ⟨row, reached⟩
    have inside : c < 8 * b.width.toNat := by omega
    refine ⟨inside, ?_⟩
    rw [handler.bitAt_mask_untargeted memory qd untargeted inside, decide_eq_true_eq,
      computeBufferSize]
    omega

theorem counts_untargeted (generated : self.generate cols bids height = some b)
    (untargeted : encode memory.getTargetId qd.targetings = []) (stray : Stray)
    (price : UInt32) :
    Counts (b.count stray (handler.mask memory qd b) price) (b.bidOfPosition stray) price
      (Finset.range (min (64 * ((b.size.toNat + 63) / 64)) 160000000)) := by
  apply b.counts_count stray _ price (handler.mem_visited_untargeted memory qd generated untargeted)
  -- the row is at most 160,000,000 positions long here, below the bound of the counters
  rw [Finset.card_range]
  omega

/-- Padding is read past the end of the bids. -/
theorem not_countsAll_of_padded (generated : self.generate cols bids height = some b)
    (untargeted : encode memory.getTargetId qd.targetings = []) (padded : ¬ 64 ∣ b.size.toNat)
    (stray : Stray) (price : UInt32) :
    ¬ CountsAll b stray (handler.mask memory qd b) price := by
  intro all
  -- the target number is the rounded size, which is not the size
  have counts := (handler.counts_untargeted memory qd generated untargeted stray price).targetNum
  rw [all.targetNum, Finset.card_range] at counts
  omega

/-- A query without effective targeting counts every sample once iff the samples fill
whole 64-bit words and their row fits in the compute buffer. -/
theorem countsAll_iff (generated : self.generate cols bids height = some b)
    (untargeted : (handler.clear.encodeTargeting memory qd).targetings = []) (stray : Stray)
    (price : UInt32) :
    CountsAll b stray (handler.mask memory qd b) price ↔
      64 ∣ b.size.toNat ∧ b.size.toNat ≤ 160000000 := by
  rw [targetings_encodeTargeting] at untargeted
  have paired := (generate_eq_some generated).2.2
  have visits := handler.mem_visited_untargeted memory qd generated untargeted
  have counts := handler.counts_untargeted memory qd generated untargeted stray price
  constructor
  · intro all
    have number := counts.targetNum
    rw [all.targetNum, Finset.card_range] at number
    omega
  · rintro ⟨whole, small⟩
    have row : min (64 * ((b.size.toNat + 63) / 64)) 160000000 = b.size.toNat := by omega
    rw [row] at visits counts
    refine ⟨?_, ?_, ?_⟩
    · rw [← UInt32.toNat_inj, counts.targetNum, Finset.card_range]
    · rw [counts.bidSum, ← paired, Finset.sum_range, ← Fin.sum_univ_fun_getElem]
      apply Finset.sum_congr rfl
      intro i _
      rw [bidOfPosition_of_lt (by omega) i.isLt, List.getD_eq_getElem _ _ i.isLt]
    · intro index read
      obtain ⟨p, visited, rfl⟩ := List.mem_map.mp read
      have sample := Finset.mem_range.mp ((visits p).mp visited)
      rw [bidIndex_of_lt (by omega), paired]
      exact ⟨Int.natCast_nonneg p, Int.ofNat_lt.mpr sample⟩

end CountsAll

section Single

/-- The name of the target of the sample. -/
def targetName : Str := .ofLiteral "male"

/-- A shared memory that serves this index and these parameters. -/
def serving (index : Index) (param : Param ℚ) : SharedMemory ℚ where
  index := ⟨fun _ => index, 1, false⟩
  param := ⟨fun _ => param, 1, false⟩
  dict := ⟨∅, AList.singleton targetName 0⟩

/-- A query for one position and one target. -/
def singleQuery (psid : Str) : QueryData where
  price := 5
  bidType := 0
  advertType := 0
  platform := 0
  hours := []
  targetings := [[targetName]]
  psids := [psid]

/-- A handler constructed in blank memory. -/
def blankHandler : RequestHandler ℚ := .construct .zero (fun _ => 0) (fun _ => 0)

/-- The bid bitmap of one sample with bid 5. -/
def singleBid : BidBitmap := { Index.singleBitmap with bids := [5] }

theorem generate_singleBid (self : BidBitmap) :
    self.generate [[0]] [5] 1 = some singleBid := rfl

/-- A dictionary of three targets. -/
def threeTargets : SharedMemory ℚ :=
  { serving .empty .empty with
    dict := ⟨∅, (∅ : CS.Dict Str Int32).insertAll
      [⟨.ofLiteral "male", 0⟩, ⟨.ofLiteral "female", 1⟩, ⟨.ofLiteral "car", 2⟩]⟩ }

/-- A query for the men and women with a car; one of its names is unknown. -/
def groupedTargets : QueryData :=
  { singleQuery [97] with
    targetings :=
      [[.ofLiteral "male", .ofLiteral "female"], [.ofLiteral "tram", .ofLiteral "car"]] }

/-- The targets of five samples. -/
def fiveColumns : List (List UInt32) := [[0, 2], [1], [1, 2], [2], [2, 0]]

/-- Retrieval of three of five samples by two groups of targets. -/
theorem retrieval_five :
    ∃ b, singleBid.generate fiveColumns [5, 1, 9, 0, 0] 3 = some b ∧
      (∀ c < 5, (b.visited (blankHandler.mask threeTargets groupedTargets b)).count c =
        if c = 0 ∨ c = 2 ∨ c = 4 then 1 else 0) ∧
      Counts (b.count (fun _ => 1) (blankHandler.mask threeTargets groupedTargets b) 5)
        (fun c => [5, 1, 9, 0, 0].getD c 0) 5 {0, 2, 4} := by
  have encoded : (blankHandler.clear.encodeTargeting threeTargets groupedTargets).targetings =
      [[0, 1], [2]] := by decide
  have succeeds : (singleBid.generate fiveColumns [5, 1, 9, 0, 0] 3).isSome := by decide +kernel
  obtain ⟨b, generated⟩ := Option.isSome_iff_exists.mp succeeds
  have base := (generate_eq_some generated).1
  have size : b.size.toNat = 5 := Bitmap.size_of_generate base
  have width := Bitmap.width_of_generate base
  rw [size] at width
  obtain ⟨once, -, counts⟩ := retrieval_eq_scan blankHandler threeTargets groupedTargets generated
    (by rw [encoded]; simp) (rows_of_all (by rw [encoded]; decide)) (by rw [width]; decide)
    (by rw [width]; decide) (fun _ => 1) 5
  have qualifying : ∀ c < 5, Qualifies threeTargets.getTargetId groupedTargets.targetings
      (fiveColumns.getD c []) ↔ c = 0 ∨ c = 2 ∨ c = 4 := by decide
  refine ⟨b, generated, fun c sample => ?_, ?_⟩
  · rw [once c (by rw [size]; exact sample)]
    simp only [qualifying c sample]
  · have selected : (Finset.range b.size.toNat).filter (fun c =>
        Qualifies threeTargets.getTargetId groupedTargets.targetings (fiveColumns.getD c [])) =
        {0, 2, 4} := by
      rw [size]
      decide
    rwa [selected] at counts

/-- A query that names no target. -/
def untargetedQuery : QueryData := { singleQuery [97] with targetings := [] }

/-- Sixty-four samples are counted once each. -/
theorem countsAll_sixtyFour :
    ∃ b, singleBid.generate (List.replicate 64 [0]) (List.replicate 64 5) 1 = some b ∧
      CountsAll b (fun _ => 1) (blankHandler.mask (serving .empty .empty) untargetedQuery b) 5 := by
  have succeeds : (singleBid.generate (List.replicate 64 [0]) (List.replicate 64 5) 1).isSome := by
    decide +kernel
  obtain ⟨b, generated⟩ := Option.isSome_iff_exists.mp succeeds
  have size := Bitmap.size_of_generate (generate_eq_some generated).1
  rw [List.length_replicate] at size
  refine ⟨b, generated, ?_⟩
  exact (countsAll_iff blankHandler _ untargetedQuery generated rfl (fun _ => 1) 5).mpr (by omega)

/-- With one sample the padding is counted too. -/
theorem not_countsAll_single :
    singleBid.generate [[0]] [5] 1 = some singleBid ∧
      (blankHandler.clear.encodeTargeting (serving .empty .empty) untargetedQuery).targetings =
        [] ∧
      ∀ stray, ¬ CountsAll singleBid stray
        (blankHandler.mask (serving .empty .empty) untargetedQuery singleBid) 5 :=
  ⟨rfl, rfl, fun stray =>
    not_countsAll_of_padded _ _ _ (generate_singleBid singleBid) rfl (by decide) stray 5⟩

end Single

end RequestHandler

end FlowRetrieval
