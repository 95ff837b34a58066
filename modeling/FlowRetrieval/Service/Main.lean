/-
# The service program

`main` of the service loads the target dictionary, updates both slots once, and then
keeps updating them for as long as every update returns `0`; otherwise it exits.

## Main results

* `SharedMemory.loaded_iff` — whether a started service serves loaded objects
-/
import FlowRetrieval.Index.RoundTrip
import FlowRetrieval.Service.SharedMemory

namespace FlowRetrieval

namespace SharedMemory

variable {R : Type} [Double R] (lib : DoubleLib R)

/-- Make update calls as the loop of `main` does, ending with `exit(1)` at the first one
that returns non-zero. The loop alternates the two calls; any order is allowed here. -/
def keepRunning (memory : SharedMemory R) : List UpdateCall → Option (SharedMemory R)
  | [] => some memory
  | c :: calls =>
    let (code, memory) := memory.call lib c
    if code ≠ 0 then none else memory.keepRunning calls

/-- `main` up to the start of the web server; `none` stands for `exit(1)`, or for a target file
whose loading does not return. -/
def startup (targetingConf : Option Str) (index param : FileState) : Option (SharedMemory R) := do
  let (code, memory) ← fresh.loadTargetMap targetingConf
  if code ≠ 0 then none
  else
    let (code, memory) := memory.updateIndex index
    if code ≠ 0 then none
    else
      let (code, memory) := memory.updateParam lib param
      if code ≠ 0 then none else some memory

theorem run_of_keepRunning {memory last : SharedMemory R} {calls : List UpdateCall}
    (running : memory.keepRunning lib calls = some last) : memory.run lib calls = last := by
  induction calls generalizing memory with
  | nil => exact Option.some.inj running
  | cons c calls ih =>
    rw [keepRunning] at running
    dsimp only at running
    split at running
    · cases running
    · exact ih running

end SharedMemory

namespace Slot

variable {T : Type} (reloadable : Reloadable T)

/-- The active buffer holds the result of the last of the successful loads, of which
there is one. -/
def HoldsLoaded (files : List FileState) (slot : Slot T) : Prop :=
  ∃ mtime, ((fresh reloadable).reloads reloadable files).getLast? = some (mtime, slot.active)

/-- Every entry of `reloads` is the result of a load that returned `0`. -/
theorem mem_reloads {slot : Slot T} {files : List FileState} {entry : ℤ × T}
    (member : entry ∈ slot.reloads reloadable files) :
    ∃ content, reloadable.load reloadable.empty content = (0, entry.2) := by
  induction files generalizing slot with
  | nil => cases member
  | cons file files ih =>
    rw [reloads, List.mem_append] at member
    rcases member with here | later
    · split at here
      · rename_i now
        obtain rfl := List.mem_singleton.mp here
        rw [reloadsNow, Bool.and_eq_true, decide_eq_true_eq, decide_eq_true_eq] at now
        -- `Load` did not see what the inactive buffer held
        refine ⟨file.content, ?_⟩
        rw [← reloadable.load_fresh slot.inactive]
        exact Prod.ext now.2 rfl
      · cases here
    · exact ih later

/-- A first call that returns `0` loads the file iff its time is positive. -/
theorem reloadsNow_fresh {file : FileState}
    (code : ((fresh reloadable).update reloadable file).1 = 0) :
    (fresh reloadable).reloadsNow reloadable file = true ↔ 0 < file.getMtime := by
  rw [reloadsNow, Bool.and_eq_true, decide_eq_true_eq, decide_eq_true_eq]
  refine ⟨And.left, fun later => ⟨later, ?_⟩⟩
  by_contra failed
  rw [update_of_failed later failed] at code
  exact failed code

/-- The first call decides whether the slot ever holds a loaded object: with a positive
time it does after every run that starts with this call. -/
theorem holdsLoaded_of_pos {file : FileState} (files : List FileState)
    (code : ((fresh reloadable).update reloadable file).1 = 0) (positive : 0 < file.getMtime) :
    HoldsLoaded reloadable (file :: files)
      ((fresh reloadable).updates reloadable (file :: files)) := by
  have latest := (holdsLatest_updates reloadable (file :: files)).1
  have now := (reloadsNow_fresh reloadable code).mpr positive
  have nonempty : (fresh reloadable).reloads reloadable (file :: files) ≠ [] := by
    rw [reloads, if_pos now]
    exact List.cons_ne_nil _ _
  rw [List.getLast?_eq_getLast_of_ne_nil nonempty] at latest
  exact ⟨_, by rw [latest, List.getLast?_eq_getLast_of_ne_nil nonempty]; rfl⟩

theorem pos_of_holdsLoaded {file : FileState} {slot : Slot T}
    (code : ((fresh reloadable).update reloadable file).1 = 0)
    (holds : HoldsLoaded reloadable [file] slot) : 0 < file.getMtime := by
  obtain ⟨mtime, last⟩ := holds
  by_contra old
  rw [← reloadsNow_fresh reloadable code] at old
  rw [reloads, if_neg old] at last
  cases last

end Slot

namespace SharedMemory

variable {R : Type} [Double R] (lib : DoubleLib R)

/-- What a started service has done: both first updates returned `0`. -/
theorem startup_eq_some {targetingConf : Option Str} {index param : FileState}
    {memory : SharedMemory R} (started : startup lib targetingConf index param = some memory) :
    (((Slot.fresh Index.reloadable).update Index.reloadable index).1 = 0 ∧
        memory.index = ((Slot.fresh Index.reloadable).update Index.reloadable index).2) ∧
      ((Slot.fresh (Param.reloadable lib)).update (Param.reloadable lib) param).1 = 0 ∧
        memory.param =
          ((Slot.fresh (Param.reloadable lib)).update (Param.reloadable lib) param).2 := by
  obtain ⟨⟨code, loaded⟩, target, started⟩ := Option.bind_eq_some_iff.mp started
  obtain ⟨⟨_, dict⟩, -, same⟩ := Option.map_eq_some_iff.mp target
  obtain ⟨rfl, rfl⟩ := Prod.mk.inj same
  dsimp only at started
  split at started
  · cases started
  · split at started
    · cases started
    · rename_i indexCode
      split at started
      · cases started
      · rename_i paramCode
        obtain rfl := Option.some.inj started
        exact ⟨⟨not_not.mp indexCode, rfl⟩, not_not.mp paramCode, rfl⟩

/-- Files that are there and can be loaded let the service start. -/
theorem startup_of_load {text : Str} (short : StringExt.ShortLines text) (index param : FileState)
    (indexLater : 0 < index.getMtime)
    (indexLoad : (Index.empty.load index.content).code = 0) (paramLater : 0 < param.getMtime)
    (paramLoad : (Param.empty.load lib param.content).1 = 0) :
    ∃ memory, startup lib (some text) index param = some memory := by
  have indexUpdate : (fresh (R := R)).index.update Index.reloadable index = _ :=
    Slot.update_of_loaded indexLater indexLoad
  have paramUpdate : (fresh (R := R)).param.update (Param.reloadable lib) param = _ :=
    Slot.update_of_loaded paramLater paramLoad
  have target : TargetMap.empty.load (some text) = some (0, .ofText text) :=
    TargetMap.load_eq_some_iff.mpr ⟨short, rfl⟩
  have dict : (fresh (R := R)).dict = .empty := rfl
  simp [startup, loadTargetMap, dict, target, updateIndex, updateParam, indexUpdate, paramUpdate]

/-- Requests find objects that were read successfully: the active index is the result
of a `Load` that returned `0`, so that it has a merge bitmap, and so is the active
parameter object. The lists are the files that the update calls so far have found. -/
def ServesLoaded (indexFiles paramFiles : List FileState) (memory : SharedMemory R) : Prop :=
  Slot.HoldsLoaded Index.reloadable indexFiles memory.index ∧
    memory.getIndex.getUvMergeBitmap.isSome ∧
    Slot.HoldsLoaded (Param.reloadable lib) paramFiles memory.param

theorem isSome_of_holdsLoaded {files : List FileState} {slot : Slot Index}
    (holds : Slot.HoldsLoaded Index.reloadable files slot) :
    slot.active.getUvMergeBitmap.isSome := by
  obtain ⟨mtime, last⟩ := holds
  obtain ⟨content, load⟩ := Slot.mem_reloads _ (List.mem_of_getLast? last)
  rcases Index.load_cases .empty content with ⟨failed, -⟩ | ⟨-, m, -, -, found, -⟩
  · exact absurd (congrArg Prod.fst load) failed
  · have same : (Index.empty.load content).index = slot.active := congrArg Prod.snd load
    rw [← same]
    exact Option.isSome_of_eq_some found

/-- A started service serves loaded objects for as long as it keeps running iff both
files had a positive modification time at the start. -/
theorem loaded_iff (targetingConf : Option Str) (index param : FileState)
    (memory : SharedMemory R) (started : startup lib targetingConf index param = some memory) :
    (∀ calls last, memory.keepRunning lib calls = some last →
        ServesLoaded lib (index :: indexFiles calls) (param :: paramFiles calls) last) ↔
      0 < index.getMtime ∧ 0 < param.getMtime := by
  obtain ⟨⟨indexCode, indexSlot⟩, paramCode, paramSlot⟩ := startup_eq_some lib started
  constructor
  · intro serves
    -- take the moment at which the server starts, before any further call
    obtain ⟨indexLoaded, -, paramLoaded⟩ := serves [] memory rfl
    exact ⟨Slot.pos_of_holdsLoaded _ indexCode indexLoaded,
      Slot.pos_of_holdsLoaded _ paramCode paramLoaded⟩
  · rintro ⟨indexLater, paramLater⟩ calls last running
    -- every later call keeps a loaded object or replaces it by another one
    obtain rfl := run_of_keepRunning lib running
    obtain ⟨indexRun, paramRun⟩ := memory.run_slots lib calls
    have indexLoaded := Slot.holdsLoaded_of_pos _ (indexFiles calls) indexCode indexLater
    have paramLoaded := Slot.holdsLoaded_of_pos _ (paramFiles calls) paramCode paramLater
    rw [indexSlot] at indexRun
    rw [paramSlot] at paramRun
    rw [ServesLoaded, getIndex, indexRun, paramRun]
    exact ⟨indexLoaded, isSome_of_holdsLoaded indexLoaded, paramLoaded⟩

/-- The file of the index with one sample, as `stat` and `fopen` show it. -/
def singleIndexFile : FileState where
  stat := some 1
  content := ((Index.build (Index.singleCalls [97])).dump (.stored _) true true).out.map
    CS.ByteFile.OutStream.contents

theorem load_singleIndexFile (self : Index) : (self.load singleIndexFile.content).code = 0 := by
  have dumpable := Index.dumpable_single [97] (by decide)
  have present : (Index.build (Index.singleCalls [97])).getUvMergeBitmap =
      some (Index.singleMerge [97]) := by
    rw [Index.build_singleCalls]
    rfl
  obtain ⟨pv, uv⟩ := Index.stored_single [97]
  have pvFits : Index.FitsSlot
      (Index.stored (Index.build (Index.singleCalls [97])).pvMap.entries) := by
    rw [pv]
    simp [Index.FitsSlot, Index.tableSize]
  have uvFits : Index.FitsSlot
      (Index.stored (Index.build (Index.singleCalls [97])).uvMap.entries) := by
    rw [uv]
    simp [Index.FitsSlot, Index.tableSize]
  obtain ⟨out, produced, -⟩ := dumpable.contents (.stored _) present pvFits uvFits
  rw [singleIndexFile, produced]
  exact (dumpable.load_contents (.stored _) present pvFits uvFits self produced).1

/-- A service with an index of one sample and an empty parameter file. -/
theorem loaded_single :
    ∃ memory, startup DoubleLib.integral (some []) singleIndexFile ⟨some 1, some []⟩ = some memory ∧
      ∀ calls last, memory.keepRunning DoubleLib.integral calls = some last →
        ServesLoaded DoubleLib.integral (singleIndexFile :: indexFiles calls)
          (⟨some 1, some []⟩ :: paramFiles calls) last := by
  have short : StringExt.ShortLines [] := by decide
  obtain ⟨memory, started⟩ := startup_of_load DoubleLib.integral short
    singleIndexFile ⟨some 1, some []⟩ Int.one_pos (load_singleIndexFile _) Int.one_pos rfl
  exact ⟨memory, started, (loaded_iff _ _ _ _ _ started).mpr ⟨Int.one_pos, Int.one_pos⟩⟩

/-- Without the files the service starts all the same, and its index is empty. -/
theorem not_loaded_missing :
    ∃ memory, startup DoubleLib.integral (some []) ⟨none, none⟩ ⟨none, none⟩ = some memory ∧
      memory.getIndex.getUvMergeBitmap = none ∧
      ¬ ∀ calls last, memory.keepRunning DoubleLib.integral calls = some last →
        ServesLoaded DoubleLib.integral (⟨none, none⟩ :: indexFiles calls)
          (⟨none, none⟩ :: paramFiles calls) last := by
  refine ⟨_, rfl, rfl, ?_⟩
  intro serves
  have missing := (serves [] _ rfl).2.1
  cases missing

end SharedMemory

end FlowRetrieval
