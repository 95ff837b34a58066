/-
# Samples grouped by ad position

The loop over a sample file collects the samples of one ad position and adds its bitmap when
the position changes, and once more behind the last line. When the valid lines of the file
are grouped by position, a position gets one bitmap, with a column for each of its samples,
in the order of the file. Lines that do not parse are skipped wherever they stand, and a
first position whose name is empty, as that of the loop at its start, is no exception.

## Main results

* `Builder.lookup_infosOf` — an info is that of the first valid line of the position
* `Builder.Collected.step` — what the loop has collected and added after each line
* `Builder.stores_iff` — when the bitmaps of both kinds hold the samples of their positions
-/
import FlowRetrieval.Builder
import FlowRetrieval.Common.BitmapBlock
import Mathlib.Data.List.GetD

namespace FlowRetrieval

open CS

namespace Builder

/-- The samples of one ad position. -/
def samplesOf (samples : List Sample) (psid : Str) : List Sample :=
  samples.filter fun sample => sample.psid = psid

/-- Between two samples of one ad position there is none of another one. -/
def Grouped (samples : List Sample) : Prop :=
  ∀ first other last : Sample, [first, other, last].Sublist samples →
    first.psid = last.psid → other.psid = last.psid

/-- The info of the first valid line for the ad position. -/
def firstInfo {ι : Type} (parse : Str → Option (Option ι)) (key : ι → Str) (text psid : Str) :
    Option ι :=
  (StringExt.parsed parse text).find? fun info => key info = psid

theorem lookup_foldl_insertNew {ι : Type} (key : ι → Str) (infos : List ι) (dict : Dict Str ι)
    (psid : Str) :
    (infos.foldl (fun dict info => dict.insertNew (key info) info) dict).lookup psid =
      (dict.lookup psid).or (infos.find? fun info => key info = psid) := by
  induction infos generalizing dict with
  | nil => exact (Option.or_none ..).symm
  | cons info infos ih =>
    rw [List.foldl_cons, ih]
    rcases eq_or_ne (key info) psid with rfl | different
    · rw [Dict.lookup_insertNew_self, List.find?_cons_of_pos (by simp)]
      cases dict.lookup (key info) <;> rfl
    · rw [Dict.lookup_insertNew_of_ne _ _ different.symm,
        List.find?_cons_of_neg (by simpa using different)]

/-- A later line of the same position does not replace the first one. -/
theorem lookup_infosOf {ι : Type} (parse : Str → Option (Option ι)) (key : ι → Str)
    (text psid : Str) :
    (infosOf key (StringExt.parsed parse text)).lookup psid = firstInfo parse key text psid := by
  rw [infosOf, lookup_foldl_insertNew, AList.lookup_empty, Option.none_or, firstInfo]

section Groups

variable {samples before after : List Sample} {sample : Sample} {psid : Str}

theorem mem_samplesOf :
    sample ∈ samplesOf samples psid ↔ sample ∈ samples ∧ sample.psid = psid := by
  simp [samplesOf]

theorem samplesOf_concat_self :
    samplesOf (samples ++ [sample]) sample.psid = samplesOf samples sample.psid ++ [sample] := by
  simp [samplesOf]

theorem samplesOf_concat_of_ne (different : sample.psid ≠ psid) :
    samplesOf (samples ++ [sample]) psid = samplesOf samples psid := by
  simp [samplesOf, different]

theorem Grouped.of_append (grouped : Grouped (before ++ after)) : Grouped before :=
  fun first other last inside =>
    grouped first other last (inside.trans (List.sublist_append_left before after))

/-- A sample of another position than the one before it is the first of its position. -/
theorem Grouped.samplesOf_eq_nil (grouped : Grouped (samples ++ [sample]))
    (last : ∀ previous ∈ samples.getLast?, previous.psid ≠ sample.psid) :
    samplesOf samples sample.psid = [] := by
  rw [List.eq_nil_iff_forall_not_mem]
  intro early member
  obtain ⟨inside, same⟩ := mem_samplesOf.mp member
  induction samples using List.reverseRecOn with
  | nil => cases inside
  | append_singleton samples previous =>
    have different := last previous (by simp)
    -- the early sample is not the previous one, so that this one lies between two others
    rcases List.mem_append.mp inside with inside | here
    · have sublist : [early, previous, sample].Sublist (samples ++ [previous] ++ [sample]) := by
        rw [List.append_assoc]
        exact (List.singleton_sublist.mpr inside).append (List.Sublist.refl _)
      exact different (grouped early previous sample sublist same)
    · obtain rfl := List.mem_singleton.mp here
      exact different same

end Groups

section Loop

variable {ι β : Type} (add : Add ι) (infos : Dict Str ι) (get : Index → Str → Option β)
  (generate : Str → ι → List (List UInt32) → List UInt16 → Option β)

/-- The bitmap that samples of a file and the infos give an ad position. -/
def bitmapOf (samples : List Sample) (psid : Str) : Option β :=
  match samplesOf samples psid, infos.lookup psid with
  | group@(_ :: _), some info =>
    generate psid info (group.map Sample.targets) (group.map Sample.bid)
  | _, _ => none

/-- The loop behind the samples `before`: it has collected the samples of the last position
and added the bitmaps of all others. -/
structure Collected (before : List Sample) (loop : Loop) : Prop where
  targets : loop.targets = (samplesOf before loop.lastPsid).map Sample.targets
  bids : loop.bids = (samplesOf before loop.lastPsid).map Sample.bid
  last : ∀ sample ∈ before.getLast?, sample.psid = loop.lastPsid
  stored : ∀ psid, get loop.index psid =
    if psid = loop.lastPsid then none else bitmapOf infos generate before psid

/-- An `Add` gives its position the generated bitmap, unless it has one. -/
def Adds : Prop :=
  ∀ index psid info targets bids other, get (add index psid info targets bids).2 other =
    if other = psid then (get index other).or (generate psid info targets bids)
    else get index other

variable {add infos get generate} {before : List Sample} {loop : Loop} {sample : Sample}

theorem bitmapOf_eq_none_of_nil {psid : Str} (none : samplesOf before psid = []) :
    bitmapOf infos generate before psid = .none := by
  rw [bitmapOf, none]

theorem collected_start {index : Index} (fresh : ∀ psid, get index psid = none) :
    Collected infos get generate [] ⟨[], [], [], index⟩ where
  targets := rfl
  bids := rfl
  last := by simp
  stored psid := by
    rw [fresh, bitmapOf_eq_none_of_nil rfl, ite_self]

/-- After the bitmap of the last position is added, every position has the one of its samples. -/
theorem Collected.flush (collected : Collected infos get generate before loop)
    (adds : Adds add get generate) (psid : Str) :
    get (loop.flush add infos) psid = bitmapOf infos generate before psid := by
  have stored := collected.stored psid
  rcases eq_or_ne psid loop.lastPsid with rfl | different
  · rw [if_pos rfl] at stored
    rw [Loop.flush, bitmapOf, collected.targets, collected.bids]
    cases samplesOf before loop.lastPsid with
    | nil => exact stored
    | cons first group =>
      cases infos.lookup loop.lastPsid with
      | none => exact stored
      | some info => exact (adds ..).trans (by rw [if_pos rfl, stored, Option.none_or])
  · rw [if_neg different] at stored
    rw [← stored, Loop.flush]
    split
    · exact (adds ..).trans (if_neg different)
    · rfl

theorem bitmapOf_concat_of_ne {psid : Str} (different : psid ≠ sample.psid) :
    bitmapOf infos generate (before ++ [sample]) psid = bitmapOf infos generate before psid := by
  rw [bitmapOf, bitmapOf, samplesOf_concat_of_ne different.symm]

/-- A sample of the last position joins its group. -/
theorem Collected.step_same (collected : Collected infos get generate before loop)
    (same : sample.psid = loop.lastPsid) :
    Collected infos get generate (before ++ [sample]) (loop.step add infos sample) := by
  rw [Loop.step, if_neg (not_not.mpr same)]
  refine ⟨?_, ?_, ?_, fun psid => ?_⟩
  · simp only [← same, samplesOf_concat_self, List.map_append, List.map_singleton,
      collected.targets]
  · simp only [← same, samplesOf_concat_self, List.map_append, List.map_singleton,
      collected.bids]
  · simp [same]
  · have stored := collected.stored psid
    rcases eq_or_ne psid sample.psid with rfl | different
    · simp only [same, if_true] at stored ⊢
      exact stored
    · rw [bitmapOf_concat_of_ne different]
      exact stored

/-- Another position completes the group of the last one, and its first sample begins its own. -/
theorem Collected.step_of_ne (collected : Collected infos get generate before loop)
    (adds : Adds add get generate) (different : sample.psid ≠ loop.lastPsid)
    (first : samplesOf before sample.psid = []) :
    Collected infos get generate (before ++ [sample]) (loop.step add infos sample) := by
  have flushed := collected.flush adds
  rw [Loop.step, if_pos different]
  refine ⟨?_, ?_, by simp, fun psid => ?_⟩
  · simp only [samplesOf_concat_self, first, List.map_append, List.map_nil, List.map_singleton]
  · simp only [samplesOf_concat_self, first, List.map_append, List.map_nil, List.map_singleton]
  · rcases eq_or_ne psid sample.psid with rfl | different
    · simp only [if_true]
      rw [flushed, bitmapOf_eq_none_of_nil first]
    · simp only [if_neg different]
      rw [flushed, bitmapOf_concat_of_ne different]

/-- The loop body keeps what it has collected, for a sample that continues the groups. -/
theorem Collected.step (collected : Collected infos get generate before loop)
    (adds : Adds add get generate) (grouped : Grouped (before ++ [sample])) :
    Collected infos get generate (before ++ [sample]) (loop.step add infos sample) := by
  rcases eq_or_ne sample.psid loop.lastPsid with same | different
  · exact collected.step_same same
  · apply collected.step_of_ne adds different
    apply grouped.samplesOf_eq_nil
    intro previous member
    rw [collected.last previous member]
    exact different.symm

theorem collected_foldl (adds : Adds add get generate) {samples : List Sample}
    (grouped : Grouped samples) {index : Index} (fresh : ∀ psid, get index psid = none) :
    Collected infos get generate samples
      (samples.foldl (Loop.step add infos) ⟨[], [], [], index⟩) := by
  induction samples using List.reverseRecOn with
  | nil => exact collected_start fresh
  | append_singleton before sample ih =>
    rw [List.foldl_append]
    exact (ih grouped.of_append).step adds grouped

/-- The loop over grouped samples adds the bitmap of every position. -/
theorem get_processSamples (adds : Adds add get generate) {samples : List Sample}
    (grouped : Grouped samples) {index : Index} (fresh : ∀ psid, get index psid = none)
    (psid : Str) :
    get (processSamples add infos samples index) psid = bitmapOf infos generate samples psid :=
  (collected_foldl adds grouped fresh).flush adds psid

theorem bitmapOf_eq_some_iff {psid : Str} {b : β} :
    bitmapOf infos generate before psid = some b ↔ samplesOf before psid ≠ [] ∧
      ∃ info, infos.lookup psid = some info ∧
        generate psid info ((samplesOf before psid).map Sample.targets)
          ((samplesOf before psid).map Sample.bid) = some b := by
  rw [bitmapOf]
  cases samplesOf before psid with
  | nil => simp
  | cons first group => cases infos.lookup psid <;> simp

/-- A position has a bitmap when it has samples and an info for which one is generated. -/
theorem isSome_bitmapOf_iff {psid : Str} :
    (bitmapOf infos generate before psid).isSome ↔ samplesOf before psid ≠ [] ∧
      ∃ info, infos.lookup psid = some info ∧
        (generate psid info ((samplesOf before psid).map Sample.targets)
          ((samplesOf before psid).map Sample.bid)).isSome := by
  simp only [Option.isSome_iff_exists, bitmapOf_eq_some_iff]
  constructor
  · rintro ⟨b, nonempty, info, known, generated⟩
    exact ⟨nonempty, info, known, b, generated⟩
  · rintro ⟨nonempty, info, known, b, generated⟩
    exact ⟨b, nonempty, info, known, generated⟩

end Loop

section Fits

/-- The samples of an ad position are few enough for the 32-bit sizes of its bitmap. -/
structure Fits (samples : List Sample) (height : UInt32) : Prop where
  few : samples.length < 2 ^ 32
  short : ∀ sample ∈ samples, sample.targets.length < 2 ^ 32
  block : 8 * ((samples.length + 63) / 64) * height.toNat < 2 ^ 32

/-- The bitmap has one column for each sample, with the sample's codes and no others in a
place of its own, and its bids. -/
structure HoldsSamples (samples : List Sample) (height : UInt32) (b : BidBitmap) : Prop where
  rows : b.height = height
  columns : b.size.toNat = samples.length
  sound : b.toBitmap.Sound (samples.map Sample.targets)
  bids : b.bids = samples.map Sample.bid

variable {samples : List Sample} {height : UInt32}

theorem Fits.isSome_generate_iff (fits : Fits samples height) :
    (Bitmap.generate (samples.map Sample.targets) height).isSome ↔
      ∀ sample ∈ samples, ∀ code ∈ sample.targets, code < height := by
  rw [Bitmap.isSome_generate_iff, List.length_map, and_iff_right fits.few, List.forall_mem_map,
    and_iff_right fits.short, List.forall_mem_map]

variable {b : BidBitmap}
  (generated : Bitmap.generate (samples.map Sample.targets) height = some b.toBitmap)

include generated

theorem Fits.holdsSamples (fits : Fits samples height) (bids : b.bids = samples.map Sample.bid) :
    HoldsSamples samples height b := by
  have columns := Bitmap.size_of_generate generated
  rw [List.length_map] at columns
  refine ⟨Bitmap.height_of_generate generated, columns, ?_, bids⟩
  rw [Bitmap.sound_iff_of_generate generated, List.length_map]
  exact fits.block

/-- Samples whose bitmap holds them fit. -/
theorem HoldsSamples.fits (holds : HoldsSamples samples height b) : Fits samples height := by
  have accepted := Bitmap.isSome_generate_iff.mp (Option.isSome_of_eq_some generated)
  have block := (Bitmap.sound_iff_of_generate generated).mp holds.sound
  rw [List.length_map] at accepted block
  exact ⟨accepted.1, List.forall_mem_map.mp accepted.2.1, block⟩

end Fits

section Stored

/-- A position has a bitmap when it has samples, whose codes are rows, and an accepted info. -/
theorem isSome_bitmapOf_iff_of_fits {ι β : Type} {infos : Dict Str ι}
    {generate : Str → ι → List (List UInt32) → List UInt16 → Option β} {accepted : ι → Prop}
    {samples : List Sample} {psid : Str} {height : UInt32}
    (fits : samplesOf samples psid ≠ [] →
      (∃ info, infos.lookup psid = some info ∧ accepted info) →
        Fits (samplesOf samples psid) height)
    (accepts : ∀ info targets bids, (generate psid info targets bids).isSome ↔
      (Bitmap.generate targets height).isSome ∧ bids.length = targets.length ∧ accepted info) :
    (bitmapOf infos generate samples psid).isSome ↔ samplesOf samples psid ≠ [] ∧
      (∀ sample ∈ samplesOf samples psid, ∀ code ∈ sample.targets, code < height) ∧
      ∃ info, infos.lookup psid = some info ∧ accepted info := by
  simp only [Builder.isSome_bitmapOf_iff, accepts, List.length_map, true_and]
  constructor
  · rintro ⟨nonempty, info, known, generated, accepted⟩
    have fits := fits nonempty ⟨info, known, accepted⟩
    exact ⟨nonempty, fits.isSome_generate_iff.mp generated, info, known, accepted⟩
  · rintro ⟨nonempty, below, info, known, accepted⟩
    have fits := fits nonempty ⟨info, known, accepted⟩
    exact ⟨nonempty, info, known, fits.isSome_generate_iff.mpr below, accepted⟩

variable (strtof : Str → FloatBits) (map : TargetMap) (sample info : Str)

/-- The first valid info line of a position has an entry for each hour. -/
def PvAccepted (psid : Str) : Prop :=
  ∃ first, firstInfo (parsePvInfo strtof) PvInfo.psid info psid = some first ∧
    first.hourlyRequest.length = hoursPerDay ∧ first.hourlyPv.length = hoursPerDay ∧
    first.hourlyCtr.length = hoursPerDay

/-- A position has a valid info line. -/
def UvAccepted (psid : Str) : Prop := (firstInfo parseUvInfo UvInfo.psid info psid).isSome

/-- What the index holds after `ProcessPvMap` on an empty one. -/
structure PvStored (index : Index) : Prop where
  isSome_iff : ∀ psid, (index.getPvBidBitmap psid).isSome ↔
    samplesOf (samples map sample) psid ≠ [] ∧
    (∀ s ∈ samplesOf (samples map sample) psid, ∀ code ∈ s.targets, code < map.getSize) ∧
    PvAccepted strtof info psid
  holds : ∀ psid b, index.getPvBidBitmap psid = some b →
    HoldsSamples (samplesOf (samples map sample) psid) map.getSize b.toBidBitmap ∧
    b.psid = psid ∧ ∃ first,
      firstInfo (parsePvInfo strtof) PvInfo.psid info psid = some first ∧
      b.request = first.request ∧ b.pv = first.pv ∧ b.hourlyRequest = first.hourlyRequest ∧
      b.hourlyPv = first.hourlyPv ∧ b.hourlyCtr = first.hourlyCtr

/-- What the index holds after `ProcessUvMap` on an empty one. -/
structure UvStored (index : Index) : Prop where
  isSome_iff : ∀ psid, (index.getUvBidBitmap psid).isSome ↔
    samplesOf (samples map sample) psid ≠ [] ∧
    (∀ s ∈ samplesOf (samples map sample) psid, ∀ code ∈ s.targets, code < map.getSize) ∧
    UvAccepted info psid
  holds : ∀ psid b, index.getUvBidBitmap psid = some b →
    HoldsSamples (samplesOf (samples map sample) psid) map.getSize b.toBidBitmap ∧
    b.psid = psid ∧ ∃ first, firstInfo parseUvInfo UvInfo.psid info psid = some first ∧
      b.request = first.request ∧ b.uv = first.uv

/-- `ProcessPvMap` on an empty index returns and has stored the samples. -/
def StoresPv : Prop :=
  ∃ index, processPvMap strtof (some sample) (some info) map .empty = some (0, index) ∧
    PvStored strtof map sample info index

/-- `ProcessUvMap` on an empty index returns and has stored the samples. -/
def StoresUv : Prop :=
  ∃ index, processUvMap (some sample) (some info) map .empty = some (0, index) ∧
    UvStored map sample info index

/-- The lines of both files are short, and the samples of every position with an accepted info
are few enough for its bitmap. -/
structure FilesFit (accepted : Str → Prop) : Prop where
  sampleShort : StringExt.ShortLines sample
  infoShort : StringExt.ShortLines info
  groups : ∀ psid, samplesOf (samples map sample) psid ≠ [] → accepted psid →
    Fits (samplesOf (samples map sample) psid) map.getSize

variable {map sample} (grouped : Grouped (samples map sample))

include grouped

theorem getPvBidBitmap_processSamples (psid : Str) :
    (processSamples (addPv map) (pvInfos strtof info) (samples map sample)
        .empty).getPvBidBitmap psid =
      bitmapOf (pvInfos strtof info)
        (fun psid info targets bids => PvBidBitmap.empty.generate psid info.request info.pv
          info.hourlyRequest info.hourlyPv info.hourlyCtr targets bids map.getSize)
        (samples map sample) psid :=
  get_processSamples (fun _ _ _ _ _ _ => Index.getEntry_addEntry ..) grouped (fun _ => rfl) psid

theorem getUvBidBitmap_processSamples (psid : Str) :
    (processSamples (addUv map) (uvInfos info) (samples map sample) .empty).getUvBidBitmap psid =
      bitmapOf (uvInfos info)
        (fun psid info targets bids =>
          UvBidBitmap.empty.generate psid info.request info.uv targets bids map.getSize)
        (samples map sample) psid :=
  get_processSamples (fun _ _ _ _ _ _ => Index.getEntry_addEntry ..) grouped (fun _ => rfl) psid

theorem storesPv_of_fits (fits : FilesFit map sample info (PvAccepted strtof info)) :
    StoresPv strtof map sample info := by
  have get := getPvBidBitmap_processSamples strtof info grouped
  have known := lookup_infosOf (parsePvInfo strtof) PvInfo.psid info
  refine ⟨_, processPvMap_eq_some_iff.mpr ⟨fits.infoShort, fits.sampleShort, rfl⟩,
    fun psid => ?_, fun psid b found => ?_⟩
  · have fits := fits.groups psid
    rw [PvAccepted, ← known] at fits ⊢
    rw [get]
    exact isSome_bitmapOf_iff_of_fits fits fun _ _ _ => PvBidBitmap.isSome_generate_iff
  · rw [get, bitmapOf_eq_some_iff] at found
    obtain ⟨nonempty, first, present, generated⟩ := found
    have hours := (PvBidBitmap.isSome_generate_iff.mp (Option.isSome_of_eq_some generated)).2.2
    obtain ⟨base, bids, -, -, key⟩ := PvBidBitmap.generate_eq_some generated
    rw [pvInfos, known] at present
    have fits := fits.groups psid nonempty ⟨first, present, hours⟩
    exact ⟨fits.holdsSamples base bids, key, first, present,
      PvBidBitmap.counters_of_generate generated⟩

theorem storesUv_of_fits (fits : FilesFit map sample info (UvAccepted info)) :
    StoresUv map sample info := by
  have get := getUvBidBitmap_processSamples info grouped
  have known := lookup_infosOf parseUvInfo UvInfo.psid info
  refine ⟨_, processUvMap_eq_some_iff.mpr ⟨fits.infoShort, fits.sampleShort, rfl⟩,
    fun psid => ?_, fun psid b found => ?_⟩
  · -- every info is accepted
    have accepts (info : UvInfo) targets bids :
        (UvBidBitmap.empty.generate psid info.request info.uv targets bids map.getSize).isSome ↔
          (Bitmap.generate targets map.getSize).isSome ∧ bids.length = targets.length ∧ True := by
      rw [UvBidBitmap.isSome_generate_iff, and_true]
    have fits (nonempty : samplesOf (samples map sample) psid ≠ [])
        (present : ∃ first, (uvInfos info).lookup psid = some first ∧ True) :
        Fits (samplesOf (samples map sample) psid) map.getSize := by
      obtain ⟨first, present, -⟩ := present
      rw [uvInfos, known] at present
      exact fits.groups psid nonempty (Option.isSome_of_eq_some present)
    rw [get, isSome_bitmapOf_iff_of_fits fits accepts, UvAccepted, ← known,
      Option.isSome_iff_exists]
    simp only [and_true]
    rfl
  · rw [get, bitmapOf_eq_some_iff] at found
    obtain ⟨nonempty, first, present, generated⟩ := found
    obtain ⟨base, bids, -, key⟩ := UvBidBitmap.generate_eq_some generated
    rw [uvInfos, known] at present
    have fits := fits.groups psid nonempty (Option.isSome_of_eq_some present)
    exact ⟨fits.holdsSamples base bids, key, first, present,
      UvBidBitmap.counters_of_generate generated⟩

section Rows

variable (rows : ∀ s ∈ samples map sample, ∀ code ∈ s.targets, code < map.getSize)

include rows

theorem fits_of_storesPv (stores : StoresPv strtof map sample info) :
    FilesFit map sample info (PvAccepted strtof info) := by
  obtain ⟨index, done, stored⟩ := stores
  obtain ⟨infoShort, short, same⟩ := processPvMap_eq_some_iff.mp done
  obtain ⟨-, rfl⟩ := Prod.mk.inj same
  refine ⟨short, infoShort, fun psid nonempty accepted => ?_⟩
  -- the position has a bitmap, and this holds its samples
  have present := (stored.isSome_iff psid).mpr
    ⟨nonempty, fun s member => rows s (mem_samplesOf.mp member).1, accepted⟩
  obtain ⟨b, found⟩ := Option.isSome_iff_exists.mp present
  have holds := (stored.holds psid b found).1
  rw [getPvBidBitmap_processSamples strtof info grouped, bitmapOf_eq_some_iff] at found
  obtain ⟨-, first, -, generated⟩ := found
  exact holds.fits (PvBidBitmap.generate_eq_some generated).1

theorem fits_of_storesUv (stores : StoresUv map sample info) :
    FilesFit map sample info (UvAccepted info) := by
  obtain ⟨index, done, stored⟩ := stores
  obtain ⟨infoShort, short, same⟩ := processUvMap_eq_some_iff.mp done
  obtain ⟨-, rfl⟩ := Prod.mk.inj same
  refine ⟨short, infoShort, fun psid nonempty accepted => ?_⟩
  have present := (stored.isSome_iff psid).mpr
    ⟨nonempty, fun s member => rows s (mem_samplesOf.mp member).1, accepted⟩
  obtain ⟨b, found⟩ := Option.isSome_iff_exists.mp present
  have holds := (stored.holds psid b found).1
  rw [getUvBidBitmap_processSamples info grouped, bitmapOf_eq_some_iff] at found
  obtain ⟨-, first, -, generated⟩ := found
  exact holds.fits (UvBidBitmap.generate_eq_some generated).1

end Rows

/-- On an empty index both functions store exactly the samples of files that fit, and of no
others whose target codes are rows. With other codes a block that is too small need not be
written before `Generate` stops. -/
theorem stores_iff :
    (FilesFit map sample info (PvAccepted strtof info) → StoresPv strtof map sample info) ∧
    (FilesFit map sample info (UvAccepted info) → StoresUv map sample info) ∧
    ((∀ s ∈ samples map sample, ∀ code ∈ s.targets, code < map.getSize) →
      (StoresPv strtof map sample info ↔ FilesFit map sample info (PvAccepted strtof info)) ∧
      (StoresUv map sample info ↔ FilesFit map sample info (UvAccepted info))) := by
  have pv := storesPv_of_fits strtof info grouped
  have uv := storesUv_of_fits info grouped
  exact ⟨pv, uv, fun rows =>
    ⟨⟨fits_of_storesPv strtof info grouped rows, pv⟩, ⟨fits_of_storesUv info grouped rows, uv⟩⟩⟩

end Stored

section Single

theorem grouped_single (sample : Sample) : Grouped [sample] :=
  fun _ _ _ inside => absurd inside.length_le (by simp)

/-- A map with one target. -/
def maleMap : TargetMap := TargetMap.empty.add ⟨.ofLiteral "m", .ofLiteral "1001", 0⟩

/-- A sample of the position `p` with that target and the bid 5, after a blank line. -/
def maleText : Str := .ofLiteral "\n1\tm\tp\ta\tb\tc\tr\t5\tx\n"

/-- An info line that is too short for `ProcessPvMap`. -/
def totalsText : Str := .ofLiteral "p\t10\t7\n"

theorem samples_maleText : samples maleMap maleText = [⟨.ofLiteral "p", [0], 5⟩] := rfl

theorem stores_maleText :
    StoresPv (fun _ => 0) maleMap maleText totalsText ∧ StoresUv maleMap maleText totalsText := by
  have size : maleMap.getSize = 1 := rfl
  have grouped : Grouped (samples maleMap maleText) := by
    rw [samples_maleText]
    exact grouped_single _
  have fits (accepted : Str → Prop) : FilesFit maleMap maleText totalsText accepted := by
    refine ⟨by decide, by decide, fun psid _ _ => ?_⟩
    rw [samples_maleText, size]
    have few : (samplesOf [⟨.ofLiteral "p", [0], 5⟩] psid).length ≤ 1 := List.length_filter_le ..
    refine ⟨few.trans_lt (by decide), fun sample member => ?_, ?_⟩
    · obtain rfl := List.mem_singleton.mp (mem_samplesOf.mp member).1
      decide
    · rw [UInt32.toNat_one]
      omega
  obtain ⟨pv, uv, -⟩ := stores_iff (fun _ => 0) totalsText grouped
  exact ⟨pv (fits _), uv (fits _)⟩

end Single

section Wide

/-- The target `b` with the row `n`, behind `n` others with the rows before it. -/
def wideTargets (n : ℕ) : List TargetMap.Target :=
  ((List.range n).map fun i => ⟨List.replicate (i + 2) 97, [], Int32.ofNat i⟩) ++
    [⟨.ofLiteral "b", [], Int32.ofNat n⟩]

def wideMap (n : ℕ) : TargetMap := (wideTargets n).foldl TargetMap.add .empty

theorem wideMap_eq (n : ℕ) : wideMap n =
    ⟨TargetMap.assigned TargetMap.Target.offline (wideTargets n),
      TargetMap.assigned TargetMap.Target.online (wideTargets n)⟩ :=
  TargetMap.foldl_add .empty (wideTargets n)

theorem map_offline_wideTargets (n : ℕ) : (wideTargets n).map TargetMap.Target.offline =
    ((List.range n).map fun i => List.replicate (i + 2) 97) ++ [Str.ofLiteral "b"] := by
  simp [wideTargets, Function.comp_def]

theorem getSize_wideMap (n : ℕ) : (wideMap n).getSize = UInt32.ofNat (n + 1) := by
  have distinct : ((List.range n).map fun i => List.replicate (i + 2) (97 : UInt8)).Nodup := by
    refine List.nodup_range.map fun i j same => ?_
    simpa using congrArg List.length same
  have names : ((wideTargets n).map TargetMap.Target.offline).Nodup := by
    rw [map_offline_wideTargets, ← List.concat_eq_append]
    refine distinct.concat fun member => ?_
    obtain ⟨i, -, same⟩ := List.mem_map.mp member
    simpa [Str.ofLiteral] using congrArg List.length same
  rw [wideMap_eq, TargetMap.getSize, TargetMap.assigned, Dict.length_assignAll, List.map_map]
  refine (congrArg UInt32.ofNat (List.toFinset_card_of_nodup names)).trans ?_
  rw [map_offline_wideTargets, List.length_append, List.length_map, List.length_range,
    List.length_singleton]

theorem queryOffline_wideMap (n : ℕ) :
    (wideMap n).queryOffline (.ofLiteral "b") = Int32.ofNat n := by
  rw [wideMap_eq]
  exact TargetMap.query_assigned _ (by simp)

theorem queryOffline_wideMap_of_ne (n : ℕ) :
    (wideMap n).queryOffline (.ofLiteral "?") = -1 := by
  rw [wideMap_eq]
  apply TargetMap.query_assigned_of_notMem
  rw [map_offline_wideTargets, List.mem_append, List.mem_map]
  rintro (⟨i, -, same⟩ | here)
  · simpa [Str.ofLiteral] using congrArg List.length same
  · exact absurd here (by decide)

/-- A sample of the position `p` with the target `b` and the bid 5. -/
def wideText : Str := .ofLiteral "?\tb\tp\t?\t?\t?\t?\t5\t?"

theorem samples_wideText (n : ℕ) (row : 0 ≤ Int32.ofNat n) :
    samples (wideMap n) wideText =
      [⟨.ofLiteral "p", [(Int32.ofNat n).toUInt32], 5⟩] := by
  have parsed (map : TargetMap) : samples map wideText =
      [⟨.ofLiteral "p", knownRows map [.ofLiteral "b", .ofLiteral "?", .ofLiteral "?",
        .ofLiteral "?"] ++ knownRows map [.ofLiteral "?"], 5⟩] := rfl
  have unknown : ¬ (0 : Int32) ≤ -1 := by decide
  rw [parsed]
  simp [knownRows, queryOffline_wideMap, queryOffline_wideMap_of_ne, row, unknown]

/-- An info line of the position `p`. -/
def wideInfo : Str := .ofLiteral "p\t10\t7"

/-- A sample with the last target of this map is not stored: the block has `8 * (2 ^ 29 + 1)`
bytes, which are eight in 32 bits. -/
theorem not_stores_wide :
    Grouped (samples (wideMap (2 ^ 29)) wideText) ∧
      (wideMap (2 ^ 29)).getSize = 536870913 ∧
      samples (wideMap (2 ^ 29)) wideText = [⟨.ofLiteral "p", [536870912], 5⟩] ∧
      ¬ StoresUv (wideMap (2 ^ 29)) wideText wideInfo := by
  have read : samples (wideMap (2 ^ 29)) wideText = [⟨.ofLiteral "p", [536870912], 5⟩] :=
    samples_wideText (2 ^ 29) (by decide)
  have size : (wideMap (2 ^ 29)).getSize = 536870913 := getSize_wideMap (2 ^ 29)
  have grouped : Grouped (samples (wideMap (2 ^ 29)) wideText) := by
    rw [read]
    exact grouped_single _
  have group : samplesOf (samples (wideMap (2 ^ 29)) wideText) (.ofLiteral "p") =
      [⟨.ofLiteral "p", [536870912], 5⟩] := by
    rw [read]
    rfl
  have rows : ∀ s ∈ samples (wideMap (2 ^ 29)) wideText, ∀ code ∈ s.targets,
      code < (wideMap (2 ^ 29)).getSize := by
    rw [read, size]
    intro s member code inside
    obtain rfl := List.mem_singleton.mp member
    obtain rfl := List.mem_singleton.mp inside
    decide
  refine ⟨grouped, size, read, fun stores => ?_⟩
  have nonempty : samplesOf (samples (wideMap (2 ^ 29)) wideText) (.ofLiteral "p") ≠ [] := by
    rw [group]
    exact List.cons_ne_nil _ _
  have fits := (fits_of_storesUv wideInfo grouped rows stores).groups (.ofLiteral "p") nonempty rfl
  rw [group, size] at fits
  exact absurd fits.block (by decide)

end Wide

end Builder

end FlowRetrieval
