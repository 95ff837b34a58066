/-
# Scanning the sample files

What the service is for can be said without bitmaps: a query asks for the samples of some ad
positions that have certain targets, how many of them a price wins, and what the infos of the
positions say about page views and unique visitors. The definitions here answer a query from
the lines of the input files. A service whose index holds the bitmaps of these files gives
the same answer.

## Main results

* `InputTexts.retrieve_of_generate` — `Count` finds what a scan of the samples finds
* `Holds.uvMergeRate_eq` — the merge rate is that of the lines
* `InputTexts.Holds.report_eq` — the report of a query is the scan of the files
-/
import FlowRetrieval.Builder.Samples
import FlowRetrieval.Service.MergeRate
import FlowRetrieval.Service.Retrieval

namespace FlowRetrieval

open CS Targeting Builder

/-- The texts of the input files of the builder. -/
structure InputTexts where
  targetingConf : Str
  pvSample : Str
  pvInfo : Str
  uvSample : Str
  uvInfo : Str
  uvMerge : Str

namespace InputTexts

section Scan

variable (texts : InputTexts)

/-- The files of `main`, all of which can be opened. -/
def files : Files where
  targetingConf := some texts.targetingConf
  pvSample := some texts.pvSample
  pvInfo := some texts.pvInfo
  uvSample := some texts.uvSample
  uvInfo := some texts.uvInfo
  uvMerge := some texts.uvMerge

/-- The targets, for the builder and the service alike. -/
def targetMap : TargetMap := .ofText texts.targetingConf

/-- The page-view samples of an ad position. -/
def pvGroup (psid : Str) : List Sample := samplesOf (samples texts.targetMap texts.pvSample) psid

/-- The unique-visitor samples of an ad position. -/
def uvGroup (psid : Str) : List Sample := samplesOf (samples texts.targetMap texts.uvSample) psid

/-- The ad positions of each visitor of the merge file. -/
def visits : List (List Str) := Builder.visits texts.uvMerge

/-- The info has an entry for each hour. -/
def complete (info : PvInfo) : Bool :=
  info.hourlyRequest.length = hoursPerDay && info.hourlyPv.length = hoursPerDay &&
    info.hourlyCtr.length = hoursPerDay

/-- The page-view info of an ad position that has samples. -/
def pvInfoOf (strtof : Str → FloatBits) (psid : Str) : Option PvInfo :=
  if texts.pvGroup psid = [] then none
  else (firstInfo (parsePvInfo strtof) PvInfo.psid texts.pvInfo psid).filter complete

/-- The unique-visitor info of an ad position that has samples. -/
def uvInfoOf (psid : Str) : Option UvInfo :=
  if texts.uvGroup psid = [] then none
  else firstInfo parseUvInfo UvInfo.psid texts.uvInfo psid

/-- The ad positions that have page-view samples and an info. -/
def pvPsids (strtof : Str → FloatBits) : List Str :=
  ((samples texts.targetMap texts.pvSample).map Sample.psid).dedup.filter fun psid =>
    (texts.pvInfoOf strtof psid).isSome

/-- The ad positions that have unique-visitor samples and an info. -/
def uvPsids : List Str :=
  ((samples texts.targetMap texts.uvSample).map Sample.psid).dedup.filter fun psid =>
    (texts.uvInfoOf psid).isSome

/-- What a scan of some samples finds: the counters of those that qualify. -/
def retrieve (qd : QueryData) (group : List Sample) : Result :=
  BidBitmap.tally qd.price.toUInt32 ((group.filter fun sample =>
    Qualifies texts.targetMap.queryOnline qd.targetings sample.targets).map Sample.bid)

/-- An info and a number of samples, as a bitmap without bits. -/
def pvTotals (info : PvInfo) (count : ℕ) : PvBidBitmap :=
  { PvBidBitmap.empty with
    size := UInt32.ofNat count
    request := info.request
    pv := info.pv
    hourlyPv := info.hourlyPv
    hourlyCtr := info.hourlyCtr }

/-- An info and a number of samples, as a bitmap without bits. -/
def uvTotals (info : UvInfo) (count : ℕ) : UvBidBitmap :=
  { UvBidBitmap.empty with
    size := UInt32.ofNat count
    request := info.request
    uv := info.uv }

variable {R : Type} [Double R]

/-- The visitors of the positions of a query, by the visits to each of them. -/
def mergeRate (psids : List Str) : R :=
  let known := psids.filter fun psid => texts.visits.any fun visit => visit.contains psid
  let visitors := texts.visits.countP fun visit => known.any fun psid => visit.contains psid
  let sum := known.foldl
    (fun (sum : R) psid =>
      sum + (((texts.visits.countP fun visit => visit.contains psid : ℕ) : ℤ) : R))
    0.0
  (((visitors : ℤ) : R) + escapeZero) / (sum + escapeZero)

variable (strtof : Str → FloatBits) (lib : DoubleLib R) (param : Param R) (qd : QueryData)

/-- What the page-view lines of an ad position add. -/
def addPv (acc : Accumulators R) (psid : Str) : Accumulators R :=
  match texts.pvInfoOf strtof psid with
  | none => acc
  | some info =>
    let totals := pvTotals info (texts.pvGroup psid).length
    acc.accumulatePv totals (texts.retrieve qd (texts.pvGroup psid)) param qd
      (totals.getHourlyCtr lib qd.hours)

/-- What the unique-visitor lines of an ad position add. -/
def addUv (acc : Accumulators R) (psid : Str) : Accumulators R :=
  match texts.uvInfoOf psid with
  | none => acc
  | some info =>
    acc.accumulateUv (uvTotals info (texts.uvGroup psid).length)
      (texts.retrieve qd (texts.uvGroup psid)) param

/-- The answer to a query. -/
def answer : Accumulators R :=
  let start : Accumulators R :=
    { Accumulators.zero with uvMergeRate := texts.mergeRate qd.psids }
  (qd.psids.foldl
    (fun acc psid => texts.addUv param qd (texts.addPv strtof lib param qd acc psid) psid)
    start).calculate lib param qd

end Scan

section Retrieve

/-- A tally does not depend on the order of the samples. -/
theorem tally_perm {price : UInt32} {first second : List UInt16} (perm : first.Perm second) :
    BidBitmap.tally price first = BidBitmap.tally price second := by
  simp only [BidBitmap.tally_eq, (perm.map _).sum_nat, perm.length_eq, perm.countP_eq]

/-- The bids of the columns that qualify are those of the samples that qualify. -/
theorem map_filter_range (group : List Sample) (selects : List UInt32 → Bool) :
    ((List.range group.length).filter fun c =>
        selects ((group.map Sample.targets).getD c [])).map
          (fun c => (group.map Sample.bid).getD c 0) =
      (group.filter fun sample => selects sample.targets).map Sample.bid := by
  let blank : Sample := ⟨[], [], 0⟩
  have column (c : ℕ) : (group.map Sample.targets).getD c [] = (group.getD c blank).targets :=
    List.getD_map group blank Sample.targets
  have bid (c : ℕ) : (group.map Sample.bid).getD c 0 = (group.getD c blank).bid :=
    List.getD_map group blank Sample.bid
  have columns : (List.range group.length).map (fun c => group.getD c blank) = group := by
    apply List.ext_getElem
    · rw [List.length_map, List.length_range]
    · intro c inside _
      rw [List.length_map, List.length_range] at inside
      rw [List.getElem_map, List.getElem_range, List.getD_eq_getElem _ _ inside]
  simp only [column, bid]
  conv_rhs => rw [← columns, List.filter_map, List.map_map]
  rfl

variable {R : Type} [Double R] {texts : InputTexts} {memory : SharedMemory R} {qd : QueryData}

/-- With effective targeting `Count` finds in a bitmap what a scan finds in its samples. -/
theorem retrieve_of_generate (ids : memory.getTargetId = texts.targetMap.queryOnline)
    (targeted : encode texts.targetMap.queryOnline qd.targetings ≠ [])
    (rows : texts.targetMap.RowsBelowSize) {b : BidBitmap} {group : List Sample}
    (base : Bitmap.generate (group.map Sample.targets) texts.targetMap.getSize = some b.toBitmap)
    (bids : b.bids = group.map Sample.bid) (paired : b.bids.length = b.size.toNat)
    (bounded : Fits group texts.targetMap.getSize)
    (narrow : 8 * ((group.length + 63) / 64) ≤ computeBufferSize) (heap : HeapWords) :
    Report.retrieve memory qd heap b = texts.retrieve qd group := by
  have padded := Bitmap.width_of_generate base
  have size := Bitmap.size_of_generate base
  rw [List.length_map] at size
  rw [size] at padded
  have noWrap := bounded.block
  rw [← padded] at noWrap narrow
  -- what a handler with a blank buffer counts
  let handler : RequestHandler R := .construct .zero (fun _ => 0) Report.blank
  have counted : Report.retrieve memory qd heap b =
      b.count (heap b) (handler.mask memory qd b) qd.price.toUInt32 := by
    rw [RequestHandler.mask_eq]
    rfl
  have visits := handler.mem_visited_targeted memory qd (BidBitmap.generate_of_toBitmap base paired)
    (ids ▸ targeted) (by
    rw [ids]
    intro array member row inside
    obtain ⟨⟨names, -, rfl⟩, -⟩ := mem_encode.mp member
    simp only [List.mem_filter, List.mem_map, decide_eq_true_eq] at inside
    obtain ⟨⟨name, -, rfl⟩, known⟩ := inside
    exact rows.online name known) noWrap narrow
  have perm : (b.visited (handler.mask memory qd b)).Perm
      ((List.range group.length).filter fun c =>
        Qualifies texts.targetMap.queryOnline qd.targetings
          ((group.map Sample.targets).getD c [])) := by
    refine (List.perm_ext_iff_of_nodup (b.visited_nodup _) (List.nodup_range.filter _)).mpr ?_
    intro c
    rw [visits, size, ids]
    simp
  -- all of them have bids
  have read : (b.visited (handler.mask memory qd b)).map (b.bidOfPosition (heap b)) =
      (b.visited (handler.mask memory qd b)).map fun c => (group.map Sample.bid).getD c 0 := by
    apply List.map_congr_left
    intro c visited
    have sample := Finset.mem_range.mp (Finset.mem_filter.mp ((visits c).mp visited)).1
    rw [computeBufferSize] at narrow
    rw [BidBitmap.bidOfPosition_of_lt (by omega) (by omega), bids]
  rw [counted, BidBitmap.count_eq_tally, read, tally_perm (perm.map _),
    map_filter_range group fun targets =>
      decide (Qualifies texts.targetMap.queryOnline qd.targetings targets)]
  rfl

end Retrieve

section MergeRate

variable {R : Type} [Double R] {self m : UvMergeBitmap} {samples : List (List Str)}
  (generated : self.generate samples = some m)
  (noWrap : m.width.toNat * m.height.toNat < 2 ^ 32)
  (fits : m.width.toNat ≤ computeBufferSize * 2)

include generated noWrap fits

/-- The sum of the counters, for every arithmetic. -/
theorem sumRowUv_mergeRows (psids : List Str) :
    (RequestHandler.sumRowUv m (RequestHandler.mergeRows m psids) : R) =
      (RequestHandler.knownPsids m psids).foldl
        (fun sum psid => sum + (((samples.countP fun sample => psid ∈ sample : ℕ) : ℤ) : R))
        0.0 := by
  have occur : ∀ psid ∈ RequestHandler.knownPsids m psids, UvMergeBitmap.Occurs samples psid :=
    RequestHandler.occurs_of_mem_knownPsids generated
  rw [computeBufferSize] at fits
  rw [RequestHandler.mergeRows_eq generated noWrap, RequestHandler.sumRowUv, List.foldl_map]
  generalize RequestHandler.knownPsids m psids = known at occur
  apply List.foldl_ext
  intro sum psid member
  have counter := UvMergeBitmap.toInt_getRowUv generated noWrap (by omega) (occur psid member)
  have positive : ¬ m.getRowUv (m.getRowId psid).toUInt32 < 0 := by
    rw [Int32.lt_iff_toInt_lt, counter]
    exact not_lt.mpr (Int.natCast_nonneg _)
  rw [if_neg positive, counter]

/-- The merge rate of a query, for every arithmetic. -/
theorem uvMergeRate_eq (qd : QueryData) :
    (Report.uvMergeRate qd m : R) =
      ((((samples.countP fun sample =>
          (RequestHandler.knownPsids m qd.psids).any fun psid => psid ∈ sample : ℕ) : ℤ) : R) +
          escapeZero) /
        ((RequestHandler.knownPsids m qd.psids).foldl
          (fun sum psid => sum + (((samples.countP fun sample => psid ∈ sample : ℕ) : ℤ) : R))
          0.0 + escapeZero) := by
  have counted := RequestHandler.toInt_countMask_mergeRows generated noWrap fits qd.psids
    Report.blank
  rw [Report.uvMergeRate]
  simp only [counted, sumRowUv_mergeRows generated noWrap fits]

end MergeRate

section Positions

variable {strtof : Str → FloatBits} {texts : InputTexts} {index : Index}

/-- The bitmaps of an index are those that the builder makes of the lines; the dictionary of
the merge bitmap may be stored in another order. -/
structure Holds (strtof : Str → FloatBits) (texts : InputTexts) (index : Index) : Prop where
  pv : ∀ psid, index.getPvBidBitmap psid =
    bitmapOf (pvInfos strtof texts.pvInfo)
      (fun psid info targets bids => PvBidBitmap.empty.generate psid info.request info.pv
        info.hourlyRequest info.hourlyPv info.hourlyCtr targets bids texts.targetMap.getSize)
      (samples texts.targetMap texts.pvSample) psid
  uv : ∀ psid, index.getUvBidBitmap psid =
    bitmapOf (uvInfos texts.uvInfo)
      (fun psid info targets bids => UvBidBitmap.empty.generate psid info.request info.uv
        targets bids texts.targetMap.getSize)
      (samples texts.targetMap texts.uvSample) psid
  merge : ∃ m again, UvMergeBitmap.empty.generate texts.visits = some m ∧
    index.getUvMergeBitmap = some again ∧ again.toBitmap = m.toBitmap ∧
    again.sampleUv = m.sampleUv ∧ ∀ psid, again.psidDict.lookup psid = m.psidDict.lookup psid

/-- The samples fit in bitmaps whose sizes are 32-bit numbers, the rows of the targets are
rows of these bitmaps, and the rows of the bitmaps fit in the compute buffer. -/
structure Bounded (texts : InputTexts) : Prop where
  rows : texts.targetMap.RowsBelowSize
  pv : ∀ psid, Fits (texts.pvGroup psid) texts.targetMap.getSize
  pvNarrow : ∀ psid, 8 * (((texts.pvGroup psid).length + 63) / 64) ≤ computeBufferSize
  uv : ∀ psid, Fits (texts.uvGroup psid) texts.targetMap.getSize
  uvNarrow : ∀ psid, 8 * (((texts.uvGroup psid).length + 63) / 64) ≤ computeBufferSize
  visits : 8 * ((texts.visits.length + 63) / 64) * (UvMergeBitmap.occurring texts.visits).card <
    2 ^ 32
  visitsNarrow : 8 * ((texts.visits.length + 63) / 64) ≤ computeBufferSize * 2

/-- The codes of a sample are rows that the dictionary knows. -/
theorem code_lt_getSize (rows : texts.targetMap.RowsBelowSize) {text : Str} {psid : Str}
    {sample : Sample} (member : sample ∈ samplesOf (samples texts.targetMap text) psid) :
    ∀ code ∈ sample.targets, code < texts.targetMap.getSize := by
  obtain ⟨inside, -⟩ := mem_samplesOf.mp member
  obtain ⟨line, -, parsed⟩ := List.mem_filterMap.mp inside
  have known {names : List Str} {code : UInt32}
      (listed : code ∈ knownRows texts.targetMap names) : code < texts.targetMap.getSize := by
    simp only [knownRows, List.mem_map, List.mem_filter, decide_eq_true_eq] at listed
    obtain ⟨_, ⟨⟨name, -, rfl⟩, known⟩, rfl⟩ := listed
    exact rows.offline name known
  obtain ⟨fields, -, parsed⟩ := Option.bind_eq_some_iff.mp (Option.join_eq_some_iff.mp parsed)
  split at parsed
  · obtain ⟨names, -, parsed⟩ := Option.bind_eq_some_iff.mp parsed
    obtain ⟨regions, -, parsed⟩ := Option.bind_eq_some_iff.mp parsed
    obtain rfl := Option.some.inj (Option.some.inj parsed)
    intro code listed
    exact (List.mem_append.mp listed).elim known known
  · cases parsed

variable (holds : Holds strtof texts index) (bounded : Bounded texts) {psid : Str}
include holds

theorem Holds.getPvBidBitmap_eq_none (absent : texts.pvInfoOf strtof psid = none) :
    index.getPvBidBitmap psid = none := by
  rw [holds.pv, Option.eq_none_iff_forall_ne_some]
  intro b found
  obtain ⟨nonempty, info, known, generated⟩ := bitmapOf_eq_some_iff.mp found
  rw [pvInfos, lookup_infosOf] at known
  rw [pvInfoOf, pvGroup, if_neg nonempty, known, Option.filter_eq_none_iff] at absent
  -- an info that `Generate` accepts is complete
  obtain ⟨-, -, requests, pvs, ctrs⟩ :=
    PvBidBitmap.isSome_generate_iff.mp (Option.isSome_of_eq_some generated)
  exact absent info rfl (by simp [complete, requests, pvs, ctrs])

theorem Holds.getUvBidBitmap_eq_none (absent : texts.uvInfoOf psid = none) :
    index.getUvBidBitmap psid = none := by
  rw [holds.uv, Option.eq_none_iff_forall_ne_some]
  intro b found
  obtain ⟨nonempty, info, known, -⟩ := bitmapOf_eq_some_iff.mp found
  rw [uvInfos, lookup_infosOf] at known
  rw [uvInfoOf, uvGroup, if_neg nonempty, known] at absent
  cases absent

include bounded

/-- A position with samples and a complete info has a bitmap of both. -/
theorem Holds.exists_pvBidBitmap {info : PvInfo}
    (present : texts.pvInfoOf strtof psid = some info) :
    ∃ b, index.getPvBidBitmap psid = some b ∧
      Bitmap.generate ((texts.pvGroup psid).map Sample.targets) texts.targetMap.getSize =
        some b.toBitmap ∧
      b.bids = (texts.pvGroup psid).map Sample.bid ∧ b.bids.length = b.size.toNat ∧
      b.request = info.request ∧ b.pv = info.pv ∧ b.hourlyPv = info.hourlyPv ∧
      b.hourlyCtr = info.hourlyCtr := by
  rw [pvInfoOf] at present
  split at present
  · cases present
  rename_i nonempty
  obtain ⟨known, full⟩ := Option.filter_eq_some_iff.mp present
  simp only [complete, Bool.and_eq_true, decide_eq_true_eq] at full
  have done : (PvBidBitmap.empty.generate psid info.request info.pv info.hourlyRequest
      info.hourlyPv info.hourlyCtr ((texts.pvGroup psid).map Sample.targets)
      ((texts.pvGroup psid).map Sample.bid) texts.targetMap.getSize).isSome := by
    rw [PvBidBitmap.isSome_generate_iff, (bounded.pv psid).isSome_generate_iff, List.length_map,
      List.length_map]
    exact ⟨fun sample => code_lt_getSize bounded.rows, rfl, full.1.1, full.1.2, full.2⟩
  obtain ⟨b, generated⟩ := Option.isSome_iff_exists.mp done
  obtain ⟨base, bids, paired, -⟩ := PvBidBitmap.generate_eq_some generated
  obtain ⟨request, pv, -, hourlyPv, hourlyCtr⟩ := PvBidBitmap.counters_of_generate generated
  refine ⟨b, ?_, base, bids, paired, request, pv, hourlyPv, hourlyCtr⟩
  rw [holds.pv, bitmapOf_eq_some_iff]
  exact ⟨nonempty, info, by rw [pvInfos, lookup_infosOf, known], generated⟩

/-- A position with samples and an info has a bitmap of both. -/
theorem Holds.exists_uvBidBitmap {info : UvInfo} (present : texts.uvInfoOf psid = some info) :
    ∃ b, index.getUvBidBitmap psid = some b ∧
      Bitmap.generate ((texts.uvGroup psid).map Sample.targets) texts.targetMap.getSize =
        some b.toBitmap ∧
      b.bids = (texts.uvGroup psid).map Sample.bid ∧ b.bids.length = b.size.toNat ∧
      b.request = info.request ∧ b.uv = info.uv := by
  rw [uvInfoOf] at present
  split at present
  · cases present
  rename_i nonempty
  have done : (UvBidBitmap.empty.generate psid info.request info.uv
      ((texts.uvGroup psid).map Sample.targets) ((texts.uvGroup psid).map Sample.bid)
      texts.targetMap.getSize).isSome := by
    rw [UvBidBitmap.isSome_generate_iff, (bounded.uv psid).isSome_generate_iff, List.length_map,
      List.length_map]
    exact ⟨fun sample => code_lt_getSize bounded.rows, rfl⟩
  obtain ⟨b, generated⟩ := Option.isSome_iff_exists.mp done
  obtain ⟨base, bids, paired, -⟩ := UvBidBitmap.generate_eq_some generated
  obtain ⟨request, uv⟩ := UvBidBitmap.counters_of_generate generated
  refine ⟨b, ?_, base, bids, paired, request, uv⟩
  rw [holds.uv, bitmapOf_eq_some_iff]
  exact ⟨nonempty, info, by rw [uvInfos, lookup_infosOf, present], generated⟩

end Positions

section Answer

variable {R : Type} [Double R]

/-- Of a page-view bitmap `Accumulate` reads the size and the totals. -/
theorem accumulatePv_congr (acc : Accumulators R) {first second : PvBidBitmap}
    (size : first.size = second.size) (request : first.request = second.request)
    (pv : first.pv = second.pv) (result : Result) (param : Param R) (qd : QueryData) (ctr : R) :
    acc.accumulatePv first result param qd ctr = acc.accumulatePv second result param qd ctr := by
  simp only [Accumulators.accumulatePv, Accumulators.winShare, PvBidBitmap.getRate, size, request,
    pv]

/-- Of a unique-visitor bitmap `Accumulate` reads the size and the totals. -/
theorem accumulateUv_congr (acc : Accumulators R) {first second : UvBidBitmap}
    (size : first.size = second.size) (request : first.request = second.request)
    (uv : first.uv = second.uv) (result : Result) (param : Param R) :
    acc.accumulateUv first result param = acc.accumulateUv second result param := by
  simp only [Accumulators.accumulateUv, Accumulators.winShare, UvBidBitmap.getRate, size, request,
    uv]

variable {strtof : Str → FloatBits} {texts : InputTexts} {memory : SharedMemory R}
  (lib : DoubleLib R) {qd : QueryData} (holds : Holds strtof texts memory.getIndex)
  (bounded : Bounded texts) (ids : memory.getTargetId = texts.targetMap.queryOnline)

include holds bounded ids

section Targeted

variable (targeted : encode texts.targetMap.queryOnline qd.targetings ≠ [])
include targeted

/-- A page-view bitmap adds what the lines of its position add. -/
theorem Holds.addPv_eq (heap : HeapWords) (acc : Accumulators R) (psid : Str) :
    Report.addPv lib memory qd heap acc psid =
      texts.addPv strtof lib memory.getParam qd acc psid := by
  rw [Report.addPv, addPv]
  cases present : texts.pvInfoOf strtof psid with
  | none => rw [holds.getPvBidBitmap_eq_none present]
  | some info =>
    obtain ⟨b, found, base, bids, paired, request, pv, hourlyPv, hourlyCtr⟩ :=
      holds.exists_pvBidBitmap bounded present
    have size := Bitmap.size_of_generate base
    rw [List.length_map] at size
    have retrieved := retrieve_of_generate ids targeted bounded.rows base bids paired
      (bounded.pv psid) (bounded.pvNarrow psid) heap
    have ctr : b.getHourlyCtr lib qd.hours =
        (pvTotals info (texts.pvGroup psid).length).getHourlyCtr lib qd.hours := by
      simp only [PvBidBitmap.getHourlyCtr, hourlyPv, hourlyCtr, pvTotals]
    simp only [found, retrieved, ctr]
    apply accumulatePv_congr _ _ request pv
    rw [← UInt32.ofNat_toNat (x := b.size), size]
    rfl

/-- A unique-visitor bitmap adds what the lines of its position add. -/
theorem Holds.addUv_eq (heap : HeapWords) (acc : Accumulators R) (psid : Str) :
    Report.addUv memory qd heap acc psid = texts.addUv memory.getParam qd acc psid := by
  rw [Report.addUv, addUv]
  cases present : texts.uvInfoOf psid with
  | none => rw [holds.getUvBidBitmap_eq_none present]
  | some info =>
    obtain ⟨b, found, base, bids, paired, request, uv⟩ := holds.exists_uvBidBitmap bounded present
    have size := Bitmap.size_of_generate base
    rw [List.length_map] at size
    have retrieved := retrieve_of_generate ids targeted bounded.rows base bids paired
      (bounded.uv psid) (bounded.uvNarrow psid) heap
    simp only [found, retrieved]
    apply accumulateUv_congr _ _ request uv
    rw [← UInt32.ofNat_toNat (x := b.size), size]
    rfl

omit ids targeted in
/-- The merge rate of a query is that of the lines. -/
theorem Holds.uvMergeRate_eq {merged : UvMergeBitmap}
    (present : memory.getIndex.getUvMergeBitmap = some merged) :
    (Report.uvMergeRate qd merged : R) = texts.mergeRate qd.psids := by
  obtain ⟨m, again, generated, found, bitmap, counters, dict⟩ := holds.merge
  obtain rfl := Option.some.inj (found.symm.trans present)
  obtain ⟨size, -⟩ := UvMergeBitmap.le_width_of_generate generated
  obtain ⟨keys, -, -, -, base⟩ := UvMergeBitmap.exists_numbered generated
  have padded := Bitmap.width_of_generate base
  rw [← size] at padded
  have noWrap := bounded.visits
  have fits := bounded.visitsNarrow
  rw [← UvMergeBitmap.height_of_generate generated, ← padded] at noWrap
  rw [← padded] at fits
  have known : RequestHandler.knownPsids m qd.psids =
      qd.psids.filter fun psid => texts.visits.any fun visit => psid ∈ visit := by
    apply List.filter_congr
    intro psid _
    rw [Bool.eq_iff_iff, decide_eq_true_eq, UvMergeBitmap.mem_psidDict_iff generated]
    simp [UvMergeBitmap.Occurs]
  -- the order of the dictionary does not matter
  have same : (Report.uvMergeRate qd again : R) = Report.uvMergeRate qd m := by
    have rowId : again.getRowId = m.getRowId := by
      funext psid
      rw [UvMergeBitmap.getRowId, dict, UvMergeBitmap.getRowId]
    have rowUv : again.getRowUv = m.getRowUv := by
      funext row
      simp only [UvMergeBitmap.getRowUv, counters]
    have union (rows : List Int32) :
        again.union rows ptr1 Report.blank = m.union rows ptr1 Report.blank := by
      cases rows <;> simp only [UvMergeBitmap.union, bitmap]
    simp only [Report.uvMergeRate, RequestHandler.mergeRows, RequestHandler.sumRowUv, rowId, rowUv,
      union, bitmap]
  rw [same, InputTexts.uvMergeRate_eq generated noWrap fits, known, mergeRate]
  simp only [List.contains_eq_mem]

/-- The report of a query with effective targeting is the answer of a scan, whatever the heap
holds around the bids. -/
theorem Holds.report_eq (heap : HeapWords) :
    report lib memory qd heap = some (texts.answer strtof lib memory.getParam qd) := by
  obtain ⟨-, merged, -, found, -⟩ := holds.merge
  have rate : (Report.uvMergeRate qd merged : R) = texts.mergeRate qd.psids :=
    holds.uvMergeRate_eq bounded found
  rw [report, found, Option.map_some, answer, Report.total, Report.start, rate]
  simp only [holds.addPv_eq lib bounded ids targeted heap,
    holds.addUv_eq bounded ids targeted heap]

end Targeted

end Answer

end InputTexts

end FlowRetrieval
