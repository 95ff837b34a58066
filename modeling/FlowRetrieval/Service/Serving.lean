/-
# From the input files to the answer

The builder reads the input files and dumps an index, which the service loads. For files that
the formats can hold, this chain succeeds, and as long as no newer index file appears, every
query with effective targeting is answered as by a scan of the lines of the input files.

## Main results

* `InputTexts.holds_of_build` — the builder makes an index of the lines
* `Holds.of_same` — loading the dumped file gives such an index again
* `InputTexts.serves` — what the whole chain answers
-/
import FlowRetrieval.Index.RoundTrip
import FlowRetrieval.Service.Main
import FlowRetrieval.Service.SampleScan

namespace FlowRetrieval

open CS Targeting Builder

namespace Builder

section Frame

/-- What no added bitmap changes, the loop over a sample file does not change. -/
theorem processSamples_frame {ι γ : Type} {add : Add ι} {infos : Dict Str ι} (frame : Index → γ)
    (kept : ∀ index psid info targets bids,
      frame (add index psid info targets bids).2 = frame index)
    (samples : List Sample) (index : Index) :
    frame (processSamples add infos samples index) = frame index :=
  @processSamples_induction index _ add infos (fun other => frame other = frame index)
    (fun other psid info targets bids same => (kept other psid info targets bids).trans same)
    samples rfl

variable (map : TargetMap) (samples : List Sample)

theorem uvMap_addPv (infos : Dict Str PvInfo) (index : Index) :
    (processSamples (addPv map) infos samples index).uvMap = index.uvMap :=
  processSamples_frame Index.uvMap (fun _ _ _ _ _ => rfl) _ _

theorem uvMergeMap_addPv (infos : Dict Str PvInfo) (index : Index) :
    (processSamples (addPv map) infos samples index).uvMergeMap = index.uvMergeMap :=
  processSamples_frame Index.uvMergeMap (fun _ _ _ _ _ => rfl) _ _

theorem pvMap_addUv (infos : Dict Str UvInfo) (index : Index) :
    (processSamples (addUv map) infos samples index).pvMap = index.pvMap :=
  processSamples_frame Index.pvMap (fun _ _ _ _ _ => rfl) _ _

theorem uvMergeMap_addUv (infos : Dict Str UvInfo) (index : Index) :
    (processSamples (addUv map) infos samples index).uvMergeMap = index.uvMergeMap :=
  processSamples_frame Index.uvMergeMap (fun _ _ _ _ _ => rfl) _ _

variable {index : Index} (wellFormed : index.WellFormed)

include wellFormed

theorem wellFormed_addPv (infos : Dict Str PvInfo) :
    (processSamples (addPv map) infos samples index).WellFormed :=
  processSamples_induction
    (fun _ psid info targets bids holds => holds.call (.pv psid info.request info.pv
      info.hourlyRequest info.hourlyPv info.hourlyCtr targets bids map.getSize)) _ wellFormed

theorem wellFormed_addUv (infos : Dict Str UvInfo) :
    (processSamples (addUv map) infos samples index).WellFormed :=
  processSamples_induction
    (fun _ psid info targets bids holds => holds.call (.uv psid info.request info.uv targets bids
      map.getSize)) _ wellFormed

end Frame

end Builder

namespace Slot

variable {T : Type} (reloadable : Reloadable T)

/-- Files that are not newer change nothing. -/
theorem updates_of_old {slot : Slot T} {files : List FileState}
    (old : ∀ file ∈ files, file.getMtime ≤ slot.ts) : slot.updates reloadable files = slot := by
  induction files with
  | nil => rfl
  | cons file files ih =>
    rw [List.forall_mem_cons] at old
    rw [updates, List.foldl_cons, update_of_le old.1]
    exact ih old.2

end Slot

namespace SharedMemory

variable {R : Type} [Double R] (lib : DoubleLib R)

/-- No update touches the dictionary. -/
theorem dict_run (memory : SharedMemory R) (calls : List UpdateCall) :
    (memory.run lib calls).dict = memory.dict := by
  induction calls generalizing memory with
  | nil => rfl
  | cons c calls ih =>
    refine (ih _).trans ?_
    cases c <;> rfl

/-- A service starts on readable files, and it keeps what it has loaded for as long as no
newer index file appears. -/
theorem exists_startup {text : Str} (short : StringExt.ShortLines text)
    {index param : FileState} (later : 0 < index.getMtime)
    (loaded : (Index.empty.load index.content).code = 0)
    (read : ((Slot.fresh (Param.reloadable lib)).update (Param.reloadable lib) param).1 = 0) :
    ∃ memory, startup lib (some text) index param = some memory ∧
      ∀ calls last, memory.keepRunning lib calls = some last →
        (∀ file ∈ indexFiles calls, file.getMtime ≤ index.getMtime) →
        last.getIndex = (Index.empty.load index.content).index ∧
          last.dict = .ofText text := by
  have indexUpdate : (fresh (R := R)).index.update Index.reloadable index = _ :=
    Slot.update_of_loaded later loaded
  let memory : SharedMemory R :=
    { index := ((fresh (R := R)).index.update Index.reloadable index).2
      param := ((Slot.fresh (Param.reloadable lib)).update (Param.reloadable lib) param).2
      dict := .ofText text }
  have started : startup lib (some text) index param = some memory := by
    have paramCode : ((fresh (R := R)).param.update (Param.reloadable lib) param).1 = 0 := read
    have target : (fresh (R := R)).loadTargetMap (some text) =
        some (0, { fresh with dict := .ofText text }) :=
      Builder.loadTargetMap_eq_some_iff.mpr ⟨short, rfl⟩
    simp only [startup, target, updateIndex, updateParam, indexUpdate, Option.bind_eq_bind,
      Option.bind_some, ne_eq, not_true_eq_false, if_false]
    rw [if_neg (not_not.mpr paramCode)]
    simp only [memory, indexUpdate]
    rfl
  have active : memory.index.active = (Index.empty.load index.content).index := by
    rw [show memory.index = _ from congrArg Prod.snd indexUpdate]
    simp only [Slot.active_setInactive, Slot.active_switch, Slot.inactive_setInactive]
    rfl
  have ts : memory.index.ts = index.getMtime := congrArg (fun update => update.2.ts) indexUpdate
  refine ⟨memory, started, fun calls last running old => ?_⟩
  obtain rfl := run_of_keepRunning lib running
  have kept := (memory.run_slots lib calls).1
  rw [Slot.updates_of_old _ (ts ▸ old)] at kept
  refine ⟨?_, dict_run lib memory calls⟩
  rw [getIndex, kept, active]

end SharedMemory

namespace InputTexts

/-- No line of the files is too long for the indices of `Split`. -/
def Short (texts : InputTexts) : Prop :=
  ∀ text ∈ [texts.targetingConf, texts.pvSample, texts.pvInfo, texts.uvSample, texts.uvInfo,
    texts.uvMerge], StringExt.ShortLines text

instance (texts : InputTexts) : Decidable texts.Short :=
  inferInstanceAs (Decidable (∀ text ∈ [texts.targetingConf, texts.pvSample, texts.pvInfo,
    texts.uvSample, texts.uvInfo, texts.uvMerge], StringExt.ShortLines text))

/-- Files from which an index can be built and served: the lines are short, the samples are
grouped, the sizes fit, there are a target and a visit, and the offset tables fit in their
slots. -/
structure Servable (strtof : Str → FloatBits) (texts : InputTexts) : Prop extends
    Bounded texts where
  short : texts.Short
  target : 0 < texts.targetMap.getSize.toNat
  pvGrouped : Grouped (samples texts.targetMap texts.pvSample)
  uvGrouped : Grouped (samples texts.targetMap texts.uvSample)
  visited : ∃ psid, UvMergeBitmap.Occurs texts.visits psid
  visitsShort : ∀ visit ∈ texts.visits, visit.length < 2 ^ 32
  psidsShort : ∀ psid, UvMergeBitmap.Occurs texts.visits psid → psid.length < 2 ^ 32
  pvTable : Index.FitsSlot (texts.pvPsids strtof)
  uvTable : Index.FitsSlot texts.uvPsids

section Build

variable (strtof : Str → FloatBits) (texts : InputTexts)

/-- The index after the page-view samples. -/
def pvSampled : Index :=
  processSamples (Builder.addPv texts.targetMap) (pvInfos strtof texts.pvInfo)
    (samples texts.targetMap texts.pvSample) .empty

/-- The index after the samples of both kinds, before the merge bitmap. -/
def sampled : Index :=
  processSamples (Builder.addUv texts.targetMap) (uvInfos texts.uvInfo)
    (samples texts.targetMap texts.uvSample) (texts.pvSampled strtof)

/-- The builder returns for files with short lines. -/
theorem build_files {index : Index} : build strtof texts.files = some index ↔
    texts.Short ∧ ((texts.sampled strtof).addUvMergeBitmap texts.visits).2 = index := by
  simp only [build_eq_some_iff, files, TargetMap.load_eq_some_iff, processPvMap_eq_some_iff,
    processUvMap_eq_some_iff, processUvMergeMap_eq_some_iff, Prod.mk.injEq, true_and]
  constructor
  · rintro ⟨_, _, _, _, ⟨conf, rfl⟩, ⟨pvInfo, pvSample, rfl⟩, ⟨uvInfo, uvSample, rfl⟩,
      ⟨merge, rfl⟩, rfl⟩
    exact ⟨by simp [Short, conf, pvInfo, pvSample, uvInfo, uvSample, merge], rfl⟩
  · rintro ⟨short, rfl⟩
    simp only [Short, List.forall_mem_cons] at short
    obtain ⟨conf, pvSample, pvInfo, uvSample, uvInfo, merge, -⟩ := short
    exact ⟨_, _, _, _, ⟨conf, rfl⟩, ⟨pvInfo, pvSample, rfl⟩, ⟨uvInfo, uvSample, rfl⟩,
      ⟨merge, rfl⟩, rfl⟩

variable {strtof} {texts} {index : Index} (servable : texts.Servable strtof)
  (built : build strtof texts.files = some index)

include built

theorem wellFormed_of_build : index.WellFormed := by
  obtain ⟨-, rfl⟩ := (build_files strtof texts).mp built
  have pv : (texts.pvSampled strtof).WellFormed := wellFormed_addPv _ _ Index.wellFormed_empty _
  exact (wellFormed_addUv _ _ pv _).call (.uvMerge texts.visits)

theorem getUvMergeBitmap_of_build :
    index.getUvMergeBitmap = UvMergeBitmap.empty.generate texts.visits := by
  obtain ⟨-, rfl⟩ := (build_files strtof texts).mp built
  have fresh : (texts.sampled strtof).uvMergeMap = none :=
    (uvMergeMap_addUv _ _ _ _).trans (uvMergeMap_addPv _ _ _ _)
  rw [Index.index_addUvMergeBitmap, Index.getUvMergeBitmap, fresh, Option.none_or]

include servable

/-- The visits fit in a merge bitmap. -/
theorem Servable.exists_merge : ∃ m, index.getUvMergeBitmap = some m ∧
    UvMergeBitmap.empty.generate texts.visits = some m := by
  obtain ⟨psid, occurs⟩ := servable.visited
  obtain ⟨visit, member, -⟩ := occurs
  have nonempty := List.length_pos_of_mem member
  have narrow := servable.visitsNarrow
  rw [computeBufferSize] at narrow
  have rows := Nat.mul_le_mul_right (UvMergeBitmap.occurring texts.visits).card
    (show 8 ≤ 8 * ((texts.visits.length + 63) / 64) by omega)
  have block := servable.visits
  have done := (UvMergeBitmap.isSome_generate_iff .empty texts.visits).mpr
    ⟨by omega, servable.visitsShort, by omega⟩
  obtain ⟨m, generated⟩ := Option.isSome_iff_exists.mp done
  exact ⟨m, (getUvMergeBitmap_of_build built).trans generated, generated⟩

/-- The builder makes an index of the lines. -/
theorem holds_of_build : Holds strtof texts index := by
  obtain ⟨m, present, generated⟩ := servable.exists_merge built
  refine ⟨fun psid => ?_, fun psid => ?_, m, m, generated, present, rfl, rfl, fun _ => rfl⟩
  · obtain ⟨-, rfl⟩ := (build_files strtof texts).mp built
    have kept : (texts.sampled strtof).getPvBidBitmap psid =
        (texts.pvSampled strtof).getPvBidBitmap psid := by
      rw [Index.getPvBidBitmap, sampled, pvMap_addUv, ← Index.getPvBidBitmap]
    rw [Index.index_addUvMergeBitmap]
    exact kept.trans (getPvBidBitmap_processSamples strtof texts.pvInfo servable.pvGrouped psid)
  · obtain ⟨-, rfl⟩ := (build_files strtof texts).mp built
    have adds : Adds (Builder.addUv texts.targetMap) Index.getUvBidBitmap
        (fun psid info targets bids => UvBidBitmap.empty.generate psid info.request info.uv
          targets bids texts.targetMap.getSize) :=
      fun _ _ _ _ _ _ => Index.getEntry_addEntry ..
    rw [Index.index_addUvMergeBitmap]
    -- the loop over the unique-visitor samples starts without unique-visitor bitmaps
    refine get_processSamples adds servable.uvGrouped ?_ psid
    intro other
    rw [Index.getUvBidBitmap, pvSampled, uvMap_addPv]
    rfl

end Build

section Dump

variable {strtof : Str → FloatBits} {texts : InputTexts} {index : Index} {psid : Str}

/-- The bitmap of a group of samples has rows and columns and is not too large. -/
theorem occupied_of_generate {b : Bitmap} {group : List Sample} {height : UInt32}
    (base : Bitmap.generate (group.map Sample.targets) height = some b) (nonempty : group ≠ [])
    (fits : Fits group height) (rows : 0 < height.toNat) : b.Occupied := by
  have size := Bitmap.size_of_generate base
  have padded := Bitmap.width_of_generate base
  have block := fits.block
  rw [List.length_map] at size
  rw [← size, ← padded] at block
  rw [← Bitmap.height_of_generate base] at rows block
  exact ⟨rows, size ▸ List.length_pos_iff.mpr nonempty, block⟩

theorem pvGroup_ne_nil (present : (texts.pvInfoOf strtof psid).isSome) :
    texts.pvGroup psid ≠ [] := by
  intro empty
  rw [pvInfoOf, if_pos empty] at present
  cases present

theorem uvGroup_ne_nil (present : (texts.uvInfoOf psid).isSome) : texts.uvGroup psid ≠ [] := by
  intro empty
  rw [uvInfoOf, if_pos empty] at present
  cases present

/-- A position with samples is the position of one of them. -/
theorem mem_map_psid {samples : List Sample} (nonempty : samplesOf samples psid ≠ []) :
    psid ∈ samples.map Sample.psid := by
  obtain ⟨sample, member⟩ := List.exists_mem_of_ne_nil _ nonempty
  obtain ⟨inside, same⟩ := mem_samplesOf.mp member
  exact List.mem_map.mpr ⟨sample, inside, same⟩

theorem mem_pvPsids : psid ∈ texts.pvPsids strtof ↔ (texts.pvInfoOf strtof psid).isSome := by
  rw [pvPsids, List.mem_filter, List.mem_dedup]
  exact ⟨And.right, fun present => ⟨mem_map_psid (pvGroup_ne_nil present), present⟩⟩

theorem mem_uvPsids : psid ∈ texts.uvPsids ↔ (texts.uvInfoOf psid).isSome := by
  rw [uvPsids, List.mem_filter, List.mem_dedup]
  exact ⟨And.right, fun present => ⟨mem_map_psid (uvGroup_ne_nil present), present⟩⟩

/-- The stored keys of a map are the psids that have a bitmap. -/
theorem perm_stored {β : Type} {map : Dict Str (Option β)} {psids : List Str}
    (distinct : psids.Nodup)
    (members : ∀ psid, psid ∈ psids ↔ (Index.getEntry map psid).isSome) :
    (Index.stored map.entries).Perm psids := by
  refine (List.perm_ext_iff_of_nodup ((Index.stored_sublist _).nodup map.nodupKeys)
    distinct).mpr fun psid => ?_
  rw [Index.mem_stored, members, Option.isSome_iff_exists]
  exact exists_congr fun bitmap => Index.mem_entries_iff (.stored map)

variable (holds : Holds strtof texts index) (servable : texts.Servable strtof)

include holds servable

theorem Holds.isSome_getPvBidBitmap_iff :
    (index.getPvBidBitmap psid).isSome ↔ (texts.pvInfoOf strtof psid).isSome := by
  cases present : texts.pvInfoOf strtof psid with
  | none =>
    rw [holds.getPvBidBitmap_eq_none present]
    exact Iff.rfl
  | some info =>
    obtain ⟨b, found, -⟩ := holds.exists_pvBidBitmap servable.toBounded present
    rw [found]
    exact ⟨fun _ => rfl, fun _ => rfl⟩

theorem Holds.isSome_getUvBidBitmap_iff :
    (index.getUvBidBitmap psid).isSome ↔ (texts.uvInfoOf psid).isSome := by
  cases present : texts.uvInfoOf psid with
  | none =>
    rw [holds.getUvBidBitmap_eq_none present]
    exact Iff.rfl
  | some info =>
    obtain ⟨b, found, -⟩ := holds.exists_uvBidBitmap servable.toBounded present
    rw [found]
    exact ⟨fun _ => rfl, fun _ => rfl⟩

theorem Holds.fitsSlot_pv : Index.FitsSlot (Index.stored index.pvMap.entries) := by
  have perm : (Index.stored index.pvMap.entries).Perm (texts.pvPsids strtof) :=
    perm_stored ((List.nodup_dedup _).filter _) fun psid =>
      mem_pvPsids.trans (holds.isSome_getPvBidBitmap_iff servable).symm
  rw [Index.FitsSlot, Index.tableSize_perm perm]
  exact servable.pvTable

theorem Holds.fitsSlot_uv : Index.FitsSlot (Index.stored index.uvMap.entries) := by
  have perm : (Index.stored index.uvMap.entries).Perm texts.uvPsids :=
    perm_stored ((List.nodup_dedup _).filter _) fun psid =>
      mem_uvPsids.trans (holds.isSome_getUvBidBitmap_iff servable).symm
  rw [Index.FitsSlot, Index.tableSize_perm perm]
  exact servable.uvTable

theorem Holds.occupied_pv {b : PvBidBitmap} (found : index.getPvBidBitmap psid = some b) :
    b.Occupied := by
  have present := (holds.isSome_getPvBidBitmap_iff servable).mp (Option.isSome_of_eq_some found)
  obtain ⟨info, known⟩ := Option.isSome_iff_exists.mp present
  obtain ⟨other, same, base, -⟩ := holds.exists_pvBidBitmap servable.toBounded known
  obtain rfl := Option.some.inj (same.symm.trans found)
  exact occupied_of_generate base (pvGroup_ne_nil present) (servable.pv psid) servable.target

theorem Holds.occupied_uv {b : UvBidBitmap} (found : index.getUvBidBitmap psid = some b) :
    b.Occupied := by
  have present := (holds.isSome_getUvBidBitmap_iff servable).mp (Option.isSome_of_eq_some found)
  obtain ⟨info, known⟩ := Option.isSome_iff_exists.mp present
  obtain ⟨other, same, base, -⟩ := holds.exists_uvBidBitmap servable.toBounded known
  obtain rfl := Option.some.inj (same.symm.trans found)
  exact occupied_of_generate base (uvGroup_ne_nil present) (servable.uv psid) servable.target

omit holds in
/-- The bitmap of the visits has rows and columns and is not too large. -/
theorem Servable.occupied_merge {m : UvMergeBitmap}
    (generated : UvMergeBitmap.empty.generate texts.visits = some m) : m.Occupied := by
  obtain ⟨psid, occurs⟩ := servable.visited
  obtain ⟨keys, -, -, -, base⟩ := UvMergeBitmap.exists_numbered generated
  obtain ⟨size, -⟩ := UvMergeBitmap.le_width_of_generate generated
  have tall := UvMergeBitmap.height_of_generate generated
  have padded := Bitmap.width_of_generate base
  have block := servable.visits
  rw [← size] at padded
  rw [← tall, ← padded] at block
  refine ⟨?_, ?_, block⟩
  · rw [tall]
    exact Finset.card_pos.mpr ⟨psid, UvMergeBitmap.mem_occurring.mpr occurs⟩
  · obtain ⟨visit, member, -⟩ := occurs
    rw [← size]
    exact List.length_pos_of_mem member

/-- The index of the lines can be dumped without loss. -/
theorem Holds.dumpable (wellFormed : index.WellFormed) {m : UvMergeBitmap}
    (present : index.getUvMergeBitmap = some m)
    (generated : UvMergeBitmap.empty.generate texts.visits = some m) : index.Dumpable where
  toWellFormed := wellFormed
  pvOccupied psid b found := by
    refine ⟨holds.occupied_pv servable found, ?_⟩
    refine servable.pvTable.short psid (mem_pvPsids.mpr ?_)
    exact (holds.isSome_getPvBidBitmap_iff servable).mp (Option.isSome_of_eq_some found)
  uvOccupied psid b found := by
    refine ⟨holds.occupied_uv servable found, ?_⟩
    refine servable.uvTable.short psid (mem_uvPsids.mpr ?_)
    exact (holds.isSome_getUvBidBitmap_iff servable).mp (Option.isSome_of_eq_some found)
  mergeOccupied other found := by
    obtain rfl := Option.some.inj (present.symm.trans found)
    refine ⟨servable.occupied_merge generated, fun psid member => servable.psidsShort psid ?_⟩
    exact (UvMergeBitmap.mem_psidDict_iff generated psid).mp member
  pvFew := (holds.fitsSlot_pv servable).few
  uvFew := (holds.fitsSlot_uv servable).few

omit servable in
/-- An index with the same bitmaps is one of the lines, too. -/
theorem Holds.of_same {loaded : Index} (same : loaded.SameBitmaps index) :
    Holds strtof texts loaded := by
  obtain ⟨m, again, generated, present, bitmap, counters, dict⟩ := holds.merge
  obtain ⟨other, found, bitmap', counters', dict'⟩ := same.merge again present
  refine ⟨fun psid => (same.pv psid).trans (holds.pv psid),
    fun psid => (same.uv psid).trans (holds.uv psid), m, other, generated, found,
    bitmap'.trans bitmap, counters'.trans counters, fun psid => (dict' psid).trans (dict psid)⟩

end Dump

section Serve

variable {R : Type} [Double R] {strtof : Str → FloatBits} {texts : InputTexts}

/-- A query names a known target in some group when it has effective targeting. -/
theorem encode_ne_nil_iff {getTargetId : Str → Int32} {targetings : List (List Str)} :
    encode getTargetId targetings ≠ [] ↔
      ∃ names ∈ targetings, ∃ name ∈ names, 0 ≤ getTargetId name := by
  constructor
  · intro targeted
    obtain ⟨array, member⟩ := List.exists_mem_of_ne_nil _ targeted
    obtain ⟨⟨names, inside, rfl⟩, nonempty⟩ := mem_encode.mp member
    obtain ⟨row, listed⟩ := List.exists_mem_of_ne_nil _ nonempty
    simp only [List.mem_filter, List.mem_map, decide_eq_true_eq] at listed
    obtain ⟨⟨name, named, rfl⟩, known⟩ := listed
    exact ⟨names, inside, name, named, known⟩
  · rintro ⟨names, inside, name, named, known⟩
    have listed : getTargetId name ∈ (names.map getTargetId).filter fun idx => 0 ≤ idx := by
      simpa using ⟨⟨name, named, rfl⟩, known⟩
    exact List.ne_nil_of_mem (mem_encode.mpr ⟨⟨names, inside, rfl⟩, List.ne_nil_of_mem listed⟩)

/-- From the input files to the answer: the builder makes an index of them, `Dump` writes it,
a service starts on the file, and while it runs without a newer index file, whatever else it
reloads, `Process` gives the answer of a scan to every query with effective targeting. -/
theorem serves (servable : texts.Servable strtof) (lib : DoubleLib R) :
    ∃ index, build strtof texts.files = some index ∧ ∀ order : index.DumpOrder,
      ∃ out, (index.dump order true true).out = some out ∧
        (index.dump order true true).code.toInt = out.contents.length ∧
        ∀ (mtime : ℤ) (param : FileState), 0 < mtime →
          ((Slot.fresh (Param.reloadable lib)).update (Param.reloadable lib) param).1 = 0 →
          ∃ memory, SharedMemory.startup lib (some texts.targetingConf)
              ⟨some mtime, some out.contents⟩ param = some memory ∧
            ∀ calls last, memory.keepRunning lib calls = some last →
              (∀ file ∈ SharedMemory.indexFiles calls, file.getMtime ≤ mtime) →
              ∀ (handler : RequestHandler R) (qd : QueryData) (heap : HeapWords),
                (∃ names ∈ qd.targetings, ∃ name ∈ names,
                  0 ≤ texts.targetMap.queryOnline name) →
                (handler.process lib last qd heap).map RequestHandler.toAccumulators =
                  some (texts.answer strtof lib last.getParam qd) := by
  obtain ⟨index, built⟩ : ∃ index, build strtof texts.files = some index :=
    ⟨_, (build_files strtof texts).mpr ⟨servable.short, rfl⟩⟩
  refine ⟨index, built, fun order => ?_⟩
  have holds := holds_of_build servable built
  obtain ⟨m, present, generated⟩ := servable.exists_merge built
  have dumpable := holds.dumpable servable (wellFormed_of_build built) present generated
  obtain ⟨out, produced, length, -⟩ := dumpable.contents order present
    (holds.fitsSlot_pv servable) (holds.fitsSlot_uv servable)
  obtain ⟨code, same⟩ := dumpable.load_contents order present (holds.fitsSlot_pv servable)
    (holds.fitsSlot_uv servable) .empty produced
  refine ⟨out, produced, ?_, fun mtime param later read => ?_⟩
  · rw [dumpable.code_dump order present, ← length, Int64.toInt_ofNat_of_lt]
    rw [length]
    exact dumpable.stop_lt order present
  · obtain ⟨memory, started, kept⟩ := SharedMemory.exists_startup lib
      (servable.short _ List.mem_cons_self)
      (show 0 < (FileState.mk (some mtime) (some out.contents)).getMtime from later) code read
    refine ⟨memory, started, fun calls last running old handler qd heap targeted => ?_⟩
    obtain ⟨index', dict⟩ := kept calls last running old
    have ids : last.getTargetId = texts.targetMap.queryOnline := by
      funext name
      rw [SharedMemory.getTargetId, dict]
      rfl
    rw [RequestHandler.toAccumulators_process]
    exact (index' ▸ holds.of_same same).report_eq lib servable.toBounded ids
      (encode_ne_nil_iff.mpr targeted) heap

end Serve

section Single

/-- The hours of an info in which one page view falls in each hour. -/
def hourlyOnes : Str := .ofLiteral
  "\t1,1,1,1,1,1,1,1,1,1,1,1,1,1,1,1,1,1,1,1,1,1,1,1"

/-- Files with one target, one position, one sample of each kind and one visit. -/
def maleTexts : InputTexts where
  targetingConf := .ofLiteral "sex\tm\t1001\t0"
  pvSample := maleText
  pvInfo := .ofLiteral "p\t10\t7\t24" ++ hourlyOnes ++ hourlyOnes ++ hourlyOnes
  uvSample := maleText
  uvInfo := totalsText
  uvMerge := .ofLiteral "v\tp"

/-- A query for the position and the target of these files. -/
def maleQuery : QueryData :=
  { RequestHandler.singleQuery (.ofLiteral "p") with targetings := [[.ofLiteral "1001"]] }

theorem fits_male (psid : Str) : Fits (samplesOf [⟨.ofLiteral "p", [0], 5⟩] psid) 1 ∧
    8 * (((samplesOf [⟨.ofLiteral "p", [0], 5⟩] psid).length + 63) / 64) ≤ computeBufferSize := by
  have few : (samplesOf [⟨.ofLiteral "p", [0], 5⟩] psid).length ≤ 1 := List.length_filter_le ..
  refine ⟨⟨few.trans_lt (by decide), fun sample member => ?_, ?_⟩, ?_⟩
  · obtain rfl := List.mem_singleton.mp (mem_samplesOf.mp member).1
    decide
  · rw [UInt32.toNat_one]
    omega
  · rw [computeBufferSize]
    omega

theorem servable_male : maleTexts.Servable fun _ => 0 := by
  have visits : maleTexts.visits = [[.ofLiteral "p"]] := rfl
  have occurs (psid : Str) (found : UvMergeBitmap.Occurs maleTexts.visits psid) :
      psid = .ofLiteral "p" := by
    obtain ⟨visit, member, inside⟩ := found
    rw [visits] at member
    obtain rfl := List.mem_singleton.mp member
    exact List.mem_singleton.mp inside
  have rows : maleTexts.targetMap.RowsBelowSize := by
    refine (TargetMap.rowsBelowSize_ofText _).mpr ?_
    rintro target ⟨before, after, split, -⟩ -
    have member : target ∈ TargetMap.targets maleTexts.targetingConf := by
      rw [split]
      exact List.mem_append_right _ List.mem_cons_self
    obtain rfl : target = ⟨.ofLiteral "m", .ofLiteral "1001", 0⟩ := List.mem_singleton.mp member
    decide
  exact
    { rows := rows
      pv := fun psid => (fits_male psid).1
      pvNarrow := fun psid => (fits_male psid).2
      uv := fun psid => (fits_male psid).1
      uvNarrow := fun psid => (fits_male psid).2
      visits := by decide
      visitsNarrow := by decide
      short := by decide +kernel
      target := by decide
      pvGrouped := grouped_single _
      uvGrouped := grouped_single _
      visited := ⟨.ofLiteral "p", _, List.mem_singleton.mpr rfl, List.mem_singleton.mpr rfl⟩
      visitsShort := by decide
      psidsShort := fun psid found => by
        rw [occurs psid found]
        decide
      pvTable := by
        rw [Index.FitsSlot]
        decide +kernel
      uvTable := by
        rw [Index.FitsSlot]
        decide +kernel }

/-- The service that is built from these files and given no parameters finds the sample. -/
theorem serves_male :
    maleTexts.retrieve maleQuery (maleTexts.pvGroup (.ofLiteral "p")) = ⟨5, 1, 1, 0, 1⟩ ∧
      ∃ index, build (fun _ => 0) maleTexts.files = some index ∧ ∀ order : index.DumpOrder,
        ∃ out, (index.dump order true true).out = some out ∧
          ∃ memory, SharedMemory.startup DoubleLib.integral (some maleTexts.targetingConf)
              ⟨some 1, some out.contents⟩ ⟨some 1, some []⟩ = some memory ∧
            ∀ (handler : RequestHandler ℚ) (heap : HeapWords),
              (handler.process DoubleLib.integral memory maleQuery heap).map
                  RequestHandler.toAccumulators =
                some (maleTexts.answer (fun _ => 0) DoubleLib.integral memory.getParam
                  maleQuery) := by
  refine ⟨rfl, ?_⟩
  obtain ⟨index, built, chain⟩ := serves servable_male DoubleLib.integral
  refine ⟨index, built, fun order => ?_⟩
  obtain ⟨out, produced, -, serving⟩ := chain order
  obtain ⟨memory, started, answered⟩ := serving 1 ⟨some 1, some []⟩ Int.one_pos rfl
  refine ⟨out, produced, memory, started, fun handler heap => ?_⟩
  refine answered [] memory rfl (by simp [SharedMemory.indexFiles]) handler maleQuery heap ?_
  exact ⟨_, List.mem_singleton.mpr rfl, _, List.mem_singleton.mpr rfl, by decide⟩

end Single

end InputTexts

end FlowRetrieval
