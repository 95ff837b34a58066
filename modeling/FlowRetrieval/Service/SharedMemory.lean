/-
# Shared memory

`SharedMemory` keeps two buffers of each reloadable object and a flag that says which
one requests use. `Update` loads a newer file into the other buffer, switches the flag
and clears the old buffer. As long as nobody looks at the buffer in between, a pair of
buffers behaves like a cell that holds the last version that was read successfully.

## Main results

* `Slot.cell_update` — `Update` is an offer to the cell that the active buffer is
* `SharedMemory.run_invariant` — the invariant of both pairs of buffers over whole runs
-/
import FlowRetrieval.CS.VersionedCell
import FlowRetrieval.Index.Load
import FlowRetrieval.Service.Param
import FlowRetrieval.Service.TargetMap

namespace FlowRetrieval

open CS

/-- A type that `Update` can reload: `Load` clears the object first, and `Clear` leaves
a new object. -/
structure Reloadable (T : Type) where
  empty : T
  load : T → Option (List UInt8) → ℤ × T
  clear : T → T
  load_fresh : ∀ self file, load self file = load empty file
  clear_eq : ∀ self, clear self = empty

/-- `Index` as a type `Update` is instantiated with. -/
def Index.reloadable : Reloadable Index where
  empty := .empty
  load self file := ((self.load file).code, (self.load file).index)
  clear := Index.clear
  load_fresh _ _ := rfl
  clear_eq _ := rfl

theorem Index.reloadable_load_code (self : Index) (file : Option (List UInt8)) :
    (Index.reloadable.load self file).1 = (self.load file).code := rfl

/-- `Param` as a type `Update` is instantiated with. -/
def Param.reloadable {R : Type} [Double R] (lib : DoubleLib R) : Reloadable (Param R) where
  empty := .empty
  load self file := self.load lib file
  clear := Param.clear
  load_fresh _ _ := rfl
  clear_eq _ := rfl

/-- A file as one call of `Update` finds it: what `stat` says about its modification
time, and what opening it later gives. -/
structure FileState where
  stat : Option ℤ
  content : Option (List UInt8)

/-- `GetMtime`. -/
def FileState.getMtime (file : FileState) : ℤ := file.stat.getD 0

/-- Two buffers of an object with the flag and the time stamp of the active one. -/
structure Slot (T : Type) where
  buffer : Bool → T
  ts : ℤ
  flag : Bool

namespace Slot

variable {T : Type} (reloadable : Reloadable T)

/-- The slot of a new `SharedMemory`. -/
def fresh : Slot T := ⟨fun _ => reloadable.empty, 0, false⟩

/-- The buffer that requests use, as `GetIndex` and `GetParam` return it. -/
def active (slot : Slot T) : T := slot.buffer slot.flag

/-- The other buffer. -/
def inactive (slot : Slot T) : T := slot.buffer !slot.flag

/-- Put an object into the inactive buffer. -/
def setInactive (slot : Slot T) (object : T) : Slot T :=
  { slot with buffer := Function.update slot.buffer (!slot.flag) object }

/-- Switch the flag to a buffer loaded from a file with the given time. -/
def switch (slot : Slot T) (mtime : ℤ) : Slot T := { slot with flag := !slot.flag, ts := mtime }

/-- `Update`. -/
def update (slot : Slot T) (file : FileState) : ℤ × Slot T :=
  let mtime := file.getMtime
  if mtime ≤ slot.ts then (0, slot)
  else
    -- a failed `Load` leaves what it has read in the inactive buffer
    let (code, object) := reloadable.load slot.inactive file.content
    let slot := slot.setInactive object
    if code ≠ 0 then (code, slot)
    else
      -- the flag has moved, so the inactive buffer is the one that was active before
      let slot := slot.switch mtime
      (0, slot.setInactive (reloadable.clear slot.inactive))

section Buffers

variable (slot : Slot T) (object : T) (mtime : ℤ)

@[simp] theorem active_setInactive : (slot.setInactive object).active = slot.active :=
  Function.update_of_ne (fun same => (Bool.eq_not_self slot.flag).mp same) _ _

@[simp] theorem inactive_setInactive : (slot.setInactive object).inactive = object :=
  Function.update_self _ _ _

@[simp] theorem active_switch : (slot.switch mtime).active = slot.inactive := rfl

@[simp] theorem ts_setInactive : (slot.setInactive object).ts = slot.ts := rfl

@[simp] theorem flag_setInactive : (slot.setInactive object).flag = slot.flag := rfl

@[simp] theorem ts_switch : (slot.switch mtime).ts = mtime := rfl

end Buffers

section Update

variable {reloadable} {slot : Slot T} {file : FileState}

theorem update_of_le (old : file.getMtime ≤ slot.ts) :
    slot.update reloadable file = (0, slot) := if_pos old

theorem update_of_failed (later : slot.ts < file.getMtime)
    (failed : (reloadable.load slot.inactive file.content).1 ≠ 0) :
    slot.update reloadable file =
      ((reloadable.load slot.inactive file.content).1,
        slot.setInactive (reloadable.load slot.inactive file.content).2) := by
  rw [update]
  rw [if_neg (Int.not_le.mpr later)]
  exact if_pos failed

theorem update_of_loaded (later : slot.ts < file.getMtime)
    (done : (reloadable.load slot.inactive file.content).1 = 0) :
    slot.update reloadable file =
      (0, ((slot.setInactive (reloadable.load slot.inactive file.content).2).switch
        file.getMtime).setInactive reloadable.empty) := by
  rw [update]
  rw [if_neg (Int.not_le.mpr later)]
  dsimp only
  rw [if_neg (not_not.mpr done), reloadable.clear_eq]

variable (reloadable) (slot) (file)

/-- Whether one call of `Update` loads the file successfully. -/
def reloadsNow : Bool :=
  slot.ts < file.getMtime && (reloadable.load slot.inactive file.content).1 = 0

/-- The successful loads of a run of `Update`, with their modification times. -/
def reloads (slot : Slot T) : List FileState → List (ℤ × T)
  | [] => []
  | file :: files =>
    (if slot.reloadsNow reloadable file then
      [(file.getMtime, (reloadable.load slot.inactive file.content).2)] else []) ++
      reloads (slot.update reloadable file).2 files

/-- A run of `Update`. -/
def updates (slot : Slot T) (files : List FileState) : Slot T :=
  files.foldl (fun slot file => (slot.update reloadable file).2) slot

/-- The cell that the active buffer is. -/
def cell (slot : Slot T) : VersionedCell ℤ T := ⟨slot.active, slot.ts⟩

/-- What `Update` offers to the cell. -/
def version (file : FileState) : VersionedCell.Offer ℤ T :=
  let (code, object) := reloadable.load reloadable.empty file.content
  (file.getMtime, if code = 0 then some object else none)

theorem accepts_cell :
    slot.cell.accepts (version reloadable file) =
      if slot.reloadsNow reloadable file then
        some (file.getMtime, (reloadable.load slot.inactive file.content).2) else none := by
  rw [VersionedCell.accepts, version, reloadsNow, cell]
  -- the offer does not depend on what the inactive buffer holds, because `Load` clears it
  rw [reloadable.load_fresh slot.inactive]
  by_cases old : file.getMtime ≤ slot.ts
  · simp [old, Int.not_lt.mpr old]
  · by_cases done : (reloadable.load reloadable.empty file.content).1 = 0 <;>
      simp [old, Int.not_le.mp old, done]

/-- `Update` is an offer of the file to the cell. -/
theorem cell_update :
    (slot.update reloadable file).2.cell = slot.cell.offer (version reloadable file) := by
  have accepts := slot.accepts_cell reloadable file
  -- the three outcomes of a call: reloaded, failed, not newer
  by_cases later : slot.ts < file.getMtime
  · by_cases done : (reloadable.load slot.inactive file.content).1 = 0
    · rw [reloadsNow, decide_eq_true later, decide_eq_true done] at accepts
      rw [(VersionedCell.offer_of_accepts accepts).1, update_of_loaded later done]
      simp [cell]
    · rw [reloadsNow, decide_eq_false done, Bool.and_false] at accepts
      rw [VersionedCell.offer_of_refuses accepts, update_of_failed later done]
      simp [cell]
  · rw [reloadsNow, decide_eq_false later, Bool.false_and] at accepts
    rw [VersionedCell.offer_of_refuses accepts, update_of_le (Int.not_lt.mp later)]

theorem cell_updates (files : List FileState) :
    (slot.updates reloadable files).cell =
      slot.cell.offers (files.map (version reloadable)) := by
  induction files generalizing slot with
  | nil => rfl
  | cons file files ih =>
    rw [updates, List.foldl_cons, ← updates, ih, cell_update]
    rfl

theorem reloads_eq_accepted (files : List FileState) :
    slot.reloads reloadable files = slot.cell.accepted (files.map (version reloadable)) := by
  induction files generalizing slot with
  | nil => rfl
  | cons file files ih =>
    rw [reloads, ih, cell_update, List.map_cons, VersionedCell.accepted, accepts_cell]
    split <;> rfl

end Update

section Contract

/-- What one call of `Update` does to a slot. -/
structure UpdateContract (slot : Slot T) (file : FileState) : Prop where
  /-- A call that returns non-zero leaves what requests see as it was. -/
  failed : (slot.update reloadable file).1 ≠ 0 →
    (slot.update reloadable file).2.active = slot.active ∧
      (slot.update reloadable file).2.flag = slot.flag ∧
      (slot.update reloadable file).2.ts = slot.ts
  /-- `Load` works as on a new object, whatever the inactive buffer holds. -/
  unseen : reloadable.load slot.inactive file.content =
    reloadable.load reloadable.empty file.content
  /-- A reload empties the old buffer and moves the time stamp forward. -/
  reloaded : slot.reloadsNow reloadable file →
    (slot.update reloadable file).2.inactive = reloadable.empty ∧
      slot.ts < (slot.update reloadable file).2.ts

theorem updateContract (slot : Slot T) (file : FileState) :
    UpdateContract reloadable slot file where
  failed := by
    intro code
    by_cases later : slot.ts < file.getMtime
    · by_cases done : (reloadable.load slot.inactive file.content).1 = 0
      · rw [update_of_loaded later done] at code
        exact absurd rfl code
      · rw [update_of_failed later done]
        simp
    · rw [update_of_le (Int.not_lt.mp later)]
      exact ⟨rfl, rfl, rfl⟩
  unseen := reloadable.load_fresh _ _
  reloaded := by
    intro now
    rw [reloadsNow, Bool.and_eq_true, decide_eq_true_eq, decide_eq_true_eq] at now
    rw [update_of_loaded now.1 now.2]
    exact ⟨by simp, now.1⟩

/-- The active buffer holds the last successful load of the run, or the new object,
and the times of the loads increase. -/
def HoldsLatest (files : List FileState) (slot : Slot T) : Prop :=
  slot.active = (((fresh reloadable).reloads reloadable files).getLast?.map Prod.snd).getD
      reloadable.empty ∧
    ((fresh reloadable).reloads reloadable files).Pairwise fun first second =>
      first.1 < second.1

theorem holdsLatest_updates (files : List FileState) :
    HoldsLatest reloadable files ((fresh reloadable).updates reloadable files) := by
  have cell := cell_updates reloadable (fresh reloadable) files
  rw [VersionedCell.offers_eq, ← reloads_eq_accepted] at cell
  refine ⟨?_, ?_⟩
  · rw [show ((fresh reloadable).updates reloadable files).active =
      ((fresh reloadable).updates reloadable files).cell.value from rfl, cell]
    cases ((fresh reloadable).reloads reloadable files).getLast? <;> rfl
  · rw [reloads_eq_accepted]
    exact (VersionedCell.pairwise_accepted _ _).1

end Contract

end Slot

/-- `SharedMemory`. -/
structure SharedMemory (R : Type) where
  index : Slot Index
  param : Slot (Param R)
  dict : TargetMap

namespace SharedMemory

variable {R : Type} [Double R] (lib : DoubleLib R)

/-- A new object. -/
def fresh : SharedMemory R where
  index := .fresh Index.reloadable
  param := ⟨fun _ => .empty, 0, false⟩
  dict := .empty

/-- `LoadTargetMap`; `none` when it does not return. -/
def loadTargetMap (memory : SharedMemory R) (file : Option Str) : Option (ℤ × SharedMemory R) :=
  (memory.dict.load file).map fun (code, dict) => (code, { memory with dict := dict })

/-- `UpdateIndex`. -/
def updateIndex (memory : SharedMemory R) (file : FileState) : ℤ × SharedMemory R :=
  let (code, index) := memory.index.update Index.reloadable file
  (code, { memory with index := index })

/-- `UpdateParam`. -/
def updateParam (memory : SharedMemory R) (file : FileState) : ℤ × SharedMemory R :=
  let (code, param) := memory.param.update (Param.reloadable lib) file
  (code, { memory with param := param })

/-- `GetIndex`. -/
def getIndex (memory : SharedMemory R) : Index := memory.index.active

/-- `GetParam`. -/
def getParam (memory : SharedMemory R) : Param R := memory.param.active

/-- `GetTargetId`. -/
def getTargetId (memory : SharedMemory R) (target : Str) : Int32 := memory.dict.queryOnline target

/-- A call of `UpdateIndex` or `UpdateParam`, with the file it finds. -/
inductive UpdateCall where
  | index (file : FileState)
  | param (file : FileState)

/-- Perform one call. -/
def call (memory : SharedMemory R) : UpdateCall → ℤ × SharedMemory R
  | .index file => memory.updateIndex file
  | .param file => memory.updateParam lib file

/-- Perform a sequence of calls. -/
def run (memory : SharedMemory R) (calls : List UpdateCall) : SharedMemory R :=
  calls.foldl (fun memory c => (memory.call lib c).2) memory

/-- The files that the calls of `UpdateIndex` find. -/
def indexFiles (calls : List UpdateCall) : List FileState :=
  calls.filterMap fun
    | .index file => some file
    | .param _ => none

/-- The files that the calls of `UpdateParam` find. -/
def paramFiles (calls : List UpdateCall) : List FileState :=
  calls.filterMap fun
    | .index _ => none
    | .param file => some file

/-- The two slots are updated independently of each other. -/
theorem run_slots (memory : SharedMemory R) (calls : List UpdateCall) :
    (memory.run lib calls).index = memory.index.updates Index.reloadable (indexFiles calls) ∧
      (memory.run lib calls).param =
        memory.param.updates (Param.reloadable lib) (paramFiles calls) := by
  induction calls generalizing memory with
  | nil => exact ⟨rfl, rfl⟩
  | cons c calls ih => cases c <;> exact ih _

/-- After every sequence of `UpdateIndex` and `UpdateParam` calls, with whatever files,
both slots hold their last successful load, and whatever call comes next keeps to the
contract of `Update`. -/
theorem run_invariant (calls : List UpdateCall) (file : FileState) :
    (Slot.HoldsLatest Index.reloadable (indexFiles calls) ((fresh (R := R)).run lib calls).index ∧
      Slot.UpdateContract Index.reloadable ((fresh (R := R)).run lib calls).index file) ∧
    Slot.HoldsLatest (Param.reloadable lib) (paramFiles calls) (fresh.run lib calls).param ∧
      Slot.UpdateContract (Param.reloadable lib) (fresh.run lib calls).param file := by
  obtain ⟨index, param⟩ := (fresh (R := R)).run_slots lib calls
  rw [index, param]
  exact ⟨⟨Slot.holdsLatest_updates _ _, Slot.updateContract _ _ _⟩,
    Slot.holdsLatest_updates (Param.reloadable lib) _, Slot.updateContract _ _ _⟩

end SharedMemory

end FlowRetrieval
