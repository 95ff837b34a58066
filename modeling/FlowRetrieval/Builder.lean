/-
# The index builder

The builder reads samples sorted by ad position and adds one bitmap for each run of
samples of a position that the info file knows, with one row for each row of the target
dictionary. The service reads the same target file and looks rows up by online name.

## Main results

* `Builder.height_of_build` — every bid bitmap has the size of the dictionary as its height
* `Builder.rowsServed_iff` — when the rows that the service looks up are rows of the bitmaps
-/
import FlowRetrieval.Service.RequestHandler

namespace FlowRetrieval

open CS

namespace Builder

/-- `PvInfo`. -/
structure PvInfo where
  psid : Str
  request : UInt64
  pv : UInt64
  hourlyRequest : List UInt32
  hourlyPv : List UInt32
  hourlyCtr : List FloatBits

/-- `UvInfo`. -/
structure UvInfo where
  psid : Str
  request : UInt64
  uv : UInt64

/-- One line of a sample file. -/
structure Sample where
  psid : Str
  targets : List UInt32
  bid : UInt16

section Lines

def regionLength : ℕ := 6

/-- The inner loop of `ProcessRegion`: an item in pieces of six bytes, the last one
possibly shorter, with `fuel` bounding the number of pieces. -/
def chunks (item : Str) : ℕ → ℕ → List Str
  | 0, _ => []
  | fuel + 1, begin =>
    if begin < item.length then
      StringExt.substr item begin regionLength :: chunks item fuel (begin + regionLength)
    else []

/-- `ProcessRegion`. -/
def processRegion (region : Str) : Option (List Str) :=
  (StringExt.splitCall region 44).map fun items =>
    items.flatMap fun item => chunks item item.length 0

/-- `static_cast<uint64_t>(strtol(item.c_str(), NULL, 10))`. -/
def toUInt64 (item : Str) : UInt64 := (Cstdlib.strtol item).toUInt64

/-- The numbers of a comma-separated array, each cast to 32 bits. -/
def toUInt32s (items : Str) : Option (List UInt32) :=
  (StringExt.splitCall items 44).map fun nums =>
    nums.map fun num => (Cstdlib.strtol num).toUInt64.toUInt32

/-- `ParseLine(const string&, PvInfo&)`; `strtof` is `strtod` cast to `float`. The outer `none`
is that of a `Split` that does not return, the inner one that of a rejected line. -/
def parsePvInfo (strtof : Str → FloatBits) (line : Str) : Option (Option PvInfo) := do
  match ← StringExt.splitCall line 9 with
  | psid :: request :: pv :: _ :: hourlyRequest :: hourlyPv :: hourlyCtr :: _ =>
    let hourlyRequest ← toUInt32s hourlyRequest
    let hourlyPv ← toUInt32s hourlyPv
    let nums ← StringExt.splitCall hourlyCtr 44
    return some
      { psid := psid
        request := toUInt64 request
        pv := toUInt64 pv
        hourlyRequest := hourlyRequest
        hourlyPv := hourlyPv
        hourlyCtr := nums.map strtof }
  | _ => return none

/-- `ParseLine(const string&, UvInfo&)`. -/
def parseUvInfo (line : Str) : Option (Option UvInfo) := do
  match ← StringExt.splitCall line 9 with
  | psid :: request :: uv :: _ => return some ⟨psid, toUInt64 request, toUInt64 uv⟩
  | _ => return none

/-- The rows of the names that the dictionary knows. -/
def knownRows (map : TargetMap) (names : List Str) : List UInt32 :=
  ((names.map map.queryOffline).filter fun row => 0 ≤ row).map Int32.toUInt32

/-- The `ParseLine` of samples, which caps bids at `0xFFFF`. -/
def parseSample (map : TargetMap) (line : Str) : Option (Option Sample) := do
  match ← StringExt.splitCall line 9 with
  | _ :: first :: psid :: third :: fourth :: fifth :: region :: bid :: _ :: _ =>
    -- the third field, `items[2]`, is the position itself
    let names ← [first, third, fourth, fifth].mapM fun item => StringExt.splitCall item 44
    let regions ← processRegion region
    let num := Cstdlib.strtol bid
    return some
      { psid := psid
        targets := knownRows map names.flatten ++ knownRows map regions
        bid := if 0xFFFF < num then 0xFFFF else num.toUInt64.toUInt16 }
  | _ => return none

/-- The loop body of `ProcessUvMergeMap`: the ad positions of one visitor. -/
def parseVisit (line : Str) : Option (Option (List Str)) := do
  match ← StringExt.splitCall line 9 with
  | _ :: psids :: _ => (StringExt.splitCall psids 44).map some
  | _ => return none

section Returns

variable {line : Str}

/-- The call of `Split` on the line decides whether the whole line is parsed: its fields are
short enough when it is. -/
theorem isSome_bind_splitCall {α : Type} {rest : List Str → Option α}
    (returns : (∀ field ∈ StringExt.split line 9, ∀ separator,
      StringExt.splitCall field separator = some (StringExt.split field separator)) →
      (rest (StringExt.split line 9)).isSome) :
    (StringExt.splitCall line 9 >>= rest).isSome ↔ line.length < 2 ^ 32 := by
  rw [StringExt.splitCall_eq]
  split
  · rename_i short
    exact iff_of_true (returns fun _ => StringExt.splitCall_of_mem_split short) short
  · rename_i long
    exact iff_of_false Bool.false_ne_true long

theorem isSome_parsePvInfo (strtof : Str → FloatBits) (line : Str) :
    (parsePvInfo strtof line).isSome ↔ line.length < 2 ^ 32 := by
  apply isSome_bind_splitCall
  intro fields
  split
  · rename_i cut
    rw [cut] at fields
    simp [toUInt32s, fields]
  · rfl

theorem isSome_parseUvInfo (line : Str) : (parseUvInfo line).isSome ↔ line.length < 2 ^ 32 := by
  apply isSome_bind_splitCall
  intro fields
  split <;> rfl

theorem isSome_parseSample (map : TargetMap) (line : Str) :
    (parseSample map line).isSome ↔ line.length < 2 ^ 32 := by
  apply isSome_bind_splitCall
  intro fields
  split
  · rename_i cut
    rw [cut] at fields
    simp [processRegion, fields]
  · rfl

theorem isSome_parseVisit (line : Str) : (parseVisit line).isSome ↔ line.length < 2 ^ 32 := by
  apply isSome_bind_splitCall
  intro fields
  split
  · rename_i cut
    rw [cut] at fields
    simp [fields]
  · rfl

end Returns

end Lines

section Process

/-- The infos of a file, the first line of a position counting. -/
def infosOf {ι : Type} (key : ι → Str) (infos : List ι) : Dict Str ι :=
  infos.foldl (fun dict info => dict.insertNew (key info) info) ∅

/-- The variables of the loop over a sample file. -/
structure Loop where
  lastPsid : Str
  targets : List (List UInt32)
  bids : List UInt16
  index : Index

/-- Adds the bitmap of the position that the loop has just left. -/
abbrev Add (ι : Type) := Index → Str → ι → List (List UInt32) → List UInt16 → ℤ × Index

variable {ι : Type} (add : Add ι) (infos : Dict Str ι)

/-- Add the bitmap of `lastPsid`, if it has samples and an info. -/
def Loop.flush (loop : Loop) : Index :=
  match loop.targets, infos.lookup loop.lastPsid with
  | _ :: _, some info => (add loop.index loop.lastPsid info loop.targets loop.bids).2
  | _, _ => loop.index

/-- The body of the loop over a sample file, for a line that parses. -/
def Loop.step (loop : Loop) (sample : Sample) : Loop :=
  let loop :=
    -- samples are sorted by position, so that another position means the last one is complete
    if sample.psid ≠ loop.lastPsid then ⟨sample.psid, [], [], loop.flush add infos⟩ else loop
  { loop with
    targets := loop.targets ++ [sample.targets]
    bids := loop.bids ++ [sample.bid] }

/-- The loop over the samples of a file, and the last position after it. -/
def processSamples (samples : List Sample) (index : Index) : Index :=
  (samples.foldl (Loop.step add infos) ⟨[], [], [], index⟩).flush add infos

/-- The call of `AddPvBidBitmap` for a position. -/
def addPv (map : TargetMap) : Add PvInfo := fun index psid info targets bids =>
  index.addPvBidBitmap psid info.request info.pv info.hourlyRequest info.hourlyPv info.hourlyCtr
    targets bids map.getSize

/-- The call of `AddUvBidBitmap` for a position. -/
def addUv (map : TargetMap) : Add UvInfo := fun index psid info targets bids =>
  index.addUvBidBitmap psid info.request info.uv targets bids map.getSize

/-- `ProcessPvMap`, with no file for one that cannot be opened; `none` when it does not
return. -/
def processPvMap (strtof : Str → FloatBits) (sample info : Option Str) (map : TargetMap)
    (index : Index) : Option (ℤ × Index) :=
  match sample, info with
  | some sample, some info => do
    let infos ← StringExt.parseLines (parsePvInfo strtof) info
    let samples ← StringExt.parseLines (parseSample map) sample
    return (0, processSamples (addPv map) (infosOf PvInfo.psid infos) samples index)
  | _, _ => return (-1, index)

/-- `ProcessUvMap`. -/
def processUvMap (sample info : Option Str) (map : TargetMap) (index : Index) :
    Option (ℤ × Index) :=
  match sample, info with
  | some sample, some info => do
    let infos ← StringExt.parseLines parseUvInfo info
    let samples ← StringExt.parseLines (parseSample map) sample
    return (0, processSamples (addUv map) (infosOf UvInfo.psid infos) samples index)
  | _, _ => return (-1, index)

/-- `ProcessUvMergeMap`. -/
def processUvMergeMap (file : Option Str) (index : Index) : Option (ℤ × Index) :=
  match file with
  | none => some (-1, index)
  | some text => (StringExt.parseLines parseVisit text).map index.addUvMergeBitmap

/-- The input files of the builder. -/
structure Files where
  targetingConf : Option Str
  pvSample : Option Str
  pvInfo : Option Str
  uvSample : Option Str
  uvInfo : Option Str
  uvMerge : Option Str

/-- The index that `main` builds and then dumps; `none` stands for `exit(1)`, or for a file whose
loop does not return. -/
def build (strtof : Str → FloatBits) (files : Files) : Option Index := do
  let (code, map) ← TargetMap.empty.load files.targetingConf
  if code ≠ 0 then none
  else
    -- `main` looks at none of these return codes
    let (_, index) ← processPvMap strtof files.pvSample files.pvInfo map .empty
    let (_, index) ← processUvMap files.uvSample files.uvInfo map index
    let (_, index) ← processUvMergeMap files.uvMerge index
    return index

end Process

section Returns

/-- The samples of the valid lines of a file, in file order. -/
def samples (map : TargetMap) (text : Str) : List Sample :=
  StringExt.parsed (parseSample map) text

/-- The ad positions of each visitor of a merge file. -/
def visits (text : Str) : List (List Str) := StringExt.parsed parseVisit text

/-- The infos of a file of page views. -/
def pvInfos (strtof : Str → FloatBits) (text : Str) : Dict Str PvInfo :=
  infosOf PvInfo.psid (StringExt.parsed (parsePvInfo strtof) text)

/-- The infos of a file of unique visitors. -/
def uvInfos (text : Str) : Dict Str UvInfo :=
  infosOf UvInfo.psid (StringExt.parsed parseUvInfo text)

variable {map : TargetMap} {index : Index} {result : ℤ × Index}

/-- `ProcessPvMap` returns for files with short lines. -/
theorem processPvMap_eq_some_iff {strtof : Str → FloatBits} {sample info : Str} :
    processPvMap strtof (some sample) (some info) map index = some result ↔
      StringExt.ShortLines info ∧ StringExt.ShortLines sample ∧
        (0, processSamples (addPv map) (pvInfos strtof info) (samples map sample) index) =
          result := by
  simp only [processPvMap, Option.bind_eq_bind, Option.bind_eq_some_iff, Option.pure_def,
    Option.some_inj, StringExt.parseLines_eq_some_iff (isSome_parsePvInfo strtof),
    StringExt.parseLines_eq_some_iff (isSome_parseSample map)]
  constructor
  · rintro ⟨_, ⟨infoShort, rfl⟩, _, ⟨short, rfl⟩, rfl⟩
    exact ⟨infoShort, short, rfl⟩
  · rintro ⟨infoShort, short, rfl⟩
    exact ⟨_, ⟨infoShort, rfl⟩, _, ⟨short, rfl⟩, rfl⟩

/-- `ProcessUvMap` does the same. -/
theorem processUvMap_eq_some_iff {sample info : Str} :
    processUvMap (some sample) (some info) map index = some result ↔
      StringExt.ShortLines info ∧ StringExt.ShortLines sample ∧
        (0, processSamples (addUv map) (uvInfos info) (samples map sample) index) = result := by
  simp only [processUvMap, Option.bind_eq_bind, Option.bind_eq_some_iff, Option.pure_def,
    Option.some_inj, StringExt.parseLines_eq_some_iff isSome_parseUvInfo,
    StringExt.parseLines_eq_some_iff (isSome_parseSample map)]
  constructor
  · rintro ⟨_, ⟨infoShort, rfl⟩, _, ⟨short, rfl⟩, rfl⟩
    exact ⟨infoShort, short, rfl⟩
  · rintro ⟨infoShort, short, rfl⟩
    exact ⟨_, ⟨infoShort, rfl⟩, _, ⟨short, rfl⟩, rfl⟩

theorem processUvMergeMap_eq_some_iff {text : Str} :
    processUvMergeMap (some text) index = some result ↔
      StringExt.ShortLines text ∧ index.addUvMergeBitmap (visits text) = result := by
  simp only [processUvMergeMap, Option.map_eq_some_iff,
    StringExt.parseLines_eq_some_iff isSome_parseVisit]
  constructor
  · rintro ⟨_, ⟨short, rfl⟩, rfl⟩
    exact ⟨short, rfl⟩
  · rintro ⟨short, rfl⟩
    exact ⟨_, ⟨short, rfl⟩, rfl⟩

/-- The steps of a build. -/
theorem build_eq_some_iff {strtof : Str → FloatBits} {files : Files} :
    build strtof files = some index ↔
      ∃ map pv uv merge, TargetMap.empty.load files.targetingConf = some (0, map) ∧
        processPvMap strtof files.pvSample files.pvInfo map .empty = some pv ∧
        processUvMap files.uvSample files.uvInfo map pv.2 = some uv ∧
        processUvMergeMap files.uvMerge uv.2 = some merge ∧ merge.2 = index := by
  simp only [build, Option.bind_eq_bind, Option.bind_eq_some_iff]
  constructor
  · rintro ⟨⟨code, map⟩, loaded, built⟩
    dsimp only at built
    split at built
    · cases built
    · rename_i done
      obtain rfl := not_not.mp done
      obtain ⟨pv, pvDone, uv, uvDone, merge, mergeDone, same⟩ := by
        simpa only [Option.bind_eq_some_iff] using built
      exact ⟨map, pv, uv, merge, loaded, pvDone, uvDone, mergeDone, Option.some.inj same⟩
  · rintro ⟨map, pv, uv, merge, loaded, pvDone, uvDone, mergeDone, rfl⟩
    refine ⟨(0, map), loaded, ?_⟩
    simp [pvDone, uvDone, mergeDone]

end Returns

section Heights

/-- Every bid bitmap of the index has this many rows. -/
structure Heights (size : UInt32) (index : Index) : Prop where
  pv : ∀ psid b, index.getPvBidBitmap psid = some b → b.height = size
  uv : ∀ psid b, index.getUvBidBitmap psid = some b → b.height = size

variable {size : UInt32} {index : Index}

theorem heights_empty : Heights size .empty :=
  ⟨by simp [Index.getPvBidBitmap, Index.getEntry, Index.empty],
    by simp [Index.getUvBidBitmap, Index.getEntry, Index.empty]⟩

theorem Heights.addPv (heights : Heights size index) (psid : Str) (request pv : UInt64)
    (hourlyRequest hourlyPv : List UInt32) (hourlyCtr : List FloatBits)
    (datas : List (List UInt32)) (bids : List UInt16) :
    Heights size (index.addPvBidBitmap psid request pv hourlyRequest hourlyPv hourlyCtr datas
      bids size).2 := by
  refine { heights with pv := Index.addEntry_induction heights.pv ?_ }
  intro b generated
  exact Bitmap.height_of_generate (PvBidBitmap.generate_eq_some generated).1

theorem Heights.addUv (heights : Heights size index) (psid : Str) (request uv : UInt64)
    (datas : List (List UInt32)) (bids : List UInt16) :
    Heights size (index.addUvBidBitmap psid request uv datas bids size).2 := by
  refine { heights with uv := Index.addEntry_induction heights.uv ?_ }
  intro b generated
  exact Bitmap.height_of_generate (UvBidBitmap.generate_eq_some generated).1

theorem Heights.addUvMerge (heights : Heights size index) (psids : List (List Str)) :
    Heights size (index.addUvMergeBitmap psids).2 := by
  rw [Index.index_addUvMergeBitmap]
  exact ⟨heights.pv, heights.uv⟩

section Loop

variable {ι : Type} {add : Add ι} {infos : Dict Str ι} {property : Index → Prop}
  (preserved : ∀ index psid info targets bids, property index →
    property (add index psid info targets bids).2)
include preserved

theorem Loop.flush_induction (loop : Loop) (holds : property loop.index) :
    property (loop.flush add infos) := by
  rw [Loop.flush]
  split
  · exact preserved _ _ _ _ _ holds
  · exact holds

theorem Loop.step_induction (loop : Loop) (sample : Sample) (holds : property loop.index) :
    property (loop.step add infos sample).index := by
  rw [Loop.step]
  split
  · exact Loop.flush_induction preserved loop holds
  · exact holds

/-- What every added bitmap keeps, the loop over the samples of a file keeps. -/
theorem processSamples_induction (samples : List Sample) (start : property index) :
    property (processSamples add infos samples index) := by
  apply Loop.flush_induction preserved
  have begun : property (Loop.mk [] [] [] index).index := start
  revert begun
  generalize Loop.mk [] [] [] index = loop
  intro holds
  induction samples generalizing loop with
  | nil => exact holds
  | cons sample samples ih => exact ih _ (Loop.step_induction preserved loop sample holds)

end Loop

variable {map : TargetMap} {sample info file : Option Str} {result : ℤ × Index}

theorem Heights.processPvMap (heights : Heights map.getSize index) {strtof : Str → FloatBits}
    (done : Builder.processPvMap strtof sample info map index = some result) :
    Heights map.getSize result.2 := by
  rcases sample, info with ⟨_ | sample, _ | info⟩
  case some.some =>
    obtain ⟨-, -, rfl⟩ := processPvMap_eq_some_iff.mp done
    exact processSamples_induction
      (fun _ psid info targets bids holds => holds.addPv psid info.request info.pv
        info.hourlyRequest info.hourlyPv info.hourlyCtr targets bids) _ heights
  all_goals
    obtain rfl := Option.some.inj done
    exact heights

theorem Heights.processUvMap (heights : Heights map.getSize index)
    (done : Builder.processUvMap sample info map index = some result) :
    Heights map.getSize result.2 := by
  rcases sample, info with ⟨_ | sample, _ | info⟩
  case some.some =>
    obtain ⟨-, -, rfl⟩ := processUvMap_eq_some_iff.mp done
    exact processSamples_induction
      (fun _ psid info targets bids holds => holds.addUv psid info.request info.uv targets bids)
      _ heights
  all_goals
    obtain rfl := Option.some.inj done
    exact heights

theorem Heights.processUvMergeMap (heights : Heights size index)
    (done : Builder.processUvMergeMap file index = some result) : Heights size result.2 := by
  cases file with
  | none =>
    obtain rfl := Option.some.inj done
    exact heights
  | some text =>
    obtain ⟨-, rfl⟩ := processUvMergeMap_eq_some_iff.mp done
    exact heights.addUvMerge _

/-- Every bid bitmap that the builder adds has the size of the dictionary as its height. -/
theorem height_of_build {strtof : Str → FloatBits} {files : Files}
    (built : build strtof files = some index) :
    ∃ map, TargetMap.empty.load files.targetingConf = some (0, map) ∧
      Heights map.getSize index := by
  obtain ⟨map, pv, uv, merge, loaded, pvDone, uvDone, mergeDone, rfl⟩ :=
    build_eq_some_iff.mp built
  exact ⟨map, loaded,
    ((heights_empty.processPvMap pvDone).processUvMap uvDone).processUvMergeMap mergeDone⟩

end Heights

section Served

variable {R : Type} [Double R]

/-- When builder and service load this target file, every row in a dictionary is below its
size, and every row that the service looks up for a query is a row of every bid bitmap that
the builder adds, whatever its other files. -/
structure RowsServed (memory : SharedMemory R) (text : Str) : Prop where
  below : ∀ loaded, memory.loadTargetMap (some text) = some loaded → loaded.2.dict.RowsBelowSize
  served : ∀ (strtof : Str → FloatBits) (files : Files) (index : Index),
    files.targetingConf = some text → build strtof files = some index →
    ∀ loaded, memory.loadTargetMap (some text) = some loaded →
    ∀ (handler : RequestHandler R) (qd : QueryData),
    ∀ array ∈ (handler.clear.encodeTargeting loaded.2 qd).targetings, ∀ row ∈ array,
      (∀ psid b, index.getPvBidBitmap psid = some b → row.toUInt32 < b.height) ∧
      ∀ psid b, index.getUvBidBitmap psid = some b → row.toUInt32 < b.height

omit [Double R] in
theorem loadTargetMap_eq_some_iff {memory : SharedMemory R} {text : Str}
    {loaded : ℤ × SharedMemory R} : memory.loadTargetMap (some text) = some loaded ↔
      StringExt.ShortLines text ∧ (0, { memory with dict := .ofText text }) = loaded := by
  rw [SharedMemory.loadTargetMap, Option.map_eq_some_iff]
  simp only [TargetMap.load_eq_some_iff]
  constructor
  · rintro ⟨_, ⟨short, rfl⟩, rfl⟩
    exact ⟨short, rfl⟩
  · rintro ⟨short, rfl⟩
    exact ⟨_, ⟨short, rfl⟩, rfl⟩

/-- The rows of a target file are served iff the rows of the targets that later lines do not
replace are below the number of offline names; a file with a longer line is not loaded. -/
theorem rowsServed_iff (memory : SharedMemory R) (text : Str) :
    RowsServed memory text ↔
      (StringExt.ShortLines text → TargetMap.RowsBelowNames (TargetMap.targets text)) := by
  rw [← TargetMap.rowsBelowSize_ofText]
  constructor
  · intro rows short
    exact rows.below _ (loadTargetMap_eq_some_iff.mpr ⟨short, rfl⟩)
  · intro below
    refine ⟨fun loaded load => ?_, ?_⟩
    · obtain ⟨short, rfl⟩ := loadTargetMap_eq_some_iff.mp load
      exact below short
    intro strtof files index conf built loaded load handler qd array member row inArray
    obtain ⟨short, rfl⟩ := loadTargetMap_eq_some_iff.mp load
    obtain ⟨map, builder, heights⟩ := height_of_build built
    rw [conf] at builder
    obtain ⟨-, same⟩ := TargetMap.load_eq_some_iff.mp builder
    obtain ⟨-, rfl⟩ := Prod.mk.inj same
    have small : row.toUInt32 < (TargetMap.ofText text).getSize := by
      rw [RequestHandler.targetings_encodeTargeting, Targeting.mem_encode] at member
      -- an encoded row is a non-negative result of `QueryOnline`
      obtain ⟨⟨names, -, rfl⟩, -⟩ := member
      simp only [List.mem_filter, List.mem_map, decide_eq_true_eq] at inArray
      obtain ⟨⟨name, -, rfl⟩, known⟩ := inArray
      exact (below short).online name known
    exact ⟨fun psid b found => (heights.pv psid b found).symm ▸ small,
      fun psid b found => (heights.uv psid b found).symm ▸ small⟩

/-- A target file of one line, whose row is not the first. -/
def gapText : Str := .ofLiteral "sex:male\t501\t1001\t1"

/-- The service looks up row 1 of bitmaps with one row. -/
theorem not_rowsServed_gap :
    TargetMap.empty.load (some gapText) = some (0, .ofText gapText) ∧
      (TargetMap.ofText gapText).queryOnline (.ofLiteral "1001") = 1 ∧
      (TargetMap.ofText gapText).getSize = 1 ∧
      ¬ RowsServed (SharedMemory.fresh : SharedMemory ℚ) gapText := by
  have row : (TargetMap.ofText gapText).queryOnline (.ofLiteral "1001") = 1 := by decide
  have size : (TargetMap.ofText gapText).getSize = 1 := by decide
  have short : StringExt.ShortLines gapText := by decide
  refine ⟨TargetMap.load_eq_some_iff.mpr ⟨short, rfl⟩, row, size, ?_⟩
  intro rows
  have below := (rows.below _ (loadTargetMap_eq_some_iff.mpr ⟨short, rfl⟩)).online
    (.ofLiteral "1001")
  rw [row, size] at below
  exact absurd (below (by decide)) (by decide)

end Served

end Builder

end FlowRetrieval
