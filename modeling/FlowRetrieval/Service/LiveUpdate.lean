/-
# Updates of a slot under references

`Load` and `Clear` write the inactive buffer of a slot piece by piece, and a request reads through
its reference at any time in between. Here the buffer that they work on holds anything while they
do. If no reference to the old buffer is left when the `Clear` after a switch begins, then no write
ever goes through to a reference, and what requests see of a slot is a versioned cell.

## Main results

* `LiveUpdate.run_update` — without readers in between, the steps add up to `Update`
* `LiveUpdate.Guarded.step` — references stay away from the buffer that is written
* `LiveUpdate.Step.buffer_eq` — what a reference points to does not change
* `LiveUpdate.Step.cell_eq` — only a switch is seen, and it is an offer to the cell
-/
import FlowRetrieval.CS.Transition
import FlowRetrieval.Service.Main

namespace FlowRetrieval

open CS CS.Transition

namespace LiveUpdate

/-- Where the updater is in `Update`. -/
inductive Phase where
  | idle
  | loading (file : FileState)
  | loaded (file : FileState)
  /-- Between the switch and `Clear`. -/
  | switched
  | clearing
  /-- `Load` has failed, and `main` exits. -/
  | failed

/-- The phases in which `Load` or `Clear` is at work on the inactive buffer. -/
def Phase.Writes : Phase → Prop
  | loading _ => True
  | clearing => True
  | _ => False

/-- A slot in the course of updates. -/
structure Live (T : Type) where
  slot : Slot T
  phase : Phase

/-- What the updater can do next. -/
inductive Event (T : Type) where
  | skip (file : FileState)
  | begin (file : FileState)
  | write (object : T)
  | loaded
  | failed
  | switch (file : FileState)
  | clear
  | cleared

variable {T : Type} (reloadable : Reloadable T)

/-- One step of `Update`. -/
inductive Step : Live T → Event T → Live T → Prop
  -- the file is not newer, and `Update` returns at once
  | skip (live : Live T) (file : FileState) (idle : live.phase = .idle)
      (old : file.getMtime ≤ live.slot.ts) : Step live (.skip file) live
  | begin (live : Live T) (file : FileState) (idle : live.phase = .idle)
      (later : live.slot.ts < file.getMtime) :
    Step live (.begin file) { live with phase := .loading file }
  | write (live : Live T) (object : T) (writes : live.phase.Writes) :
    Step live (.write object) { live with slot := live.slot.setInactive object }
  -- `Load` clears the object first, so it does not matter what it has written before
  | loaded (live : Live T) (file : FileState) (loading : live.phase = .loading file)
      (done : (reloadable.load live.slot.inactive file.content).1 = 0) :
    Step live .loaded
      ⟨live.slot.setInactive (reloadable.load live.slot.inactive file.content).2, .loaded file⟩
  | failed (live : Live T) (file : FileState) (loading : live.phase = .loading file)
      (failed : (reloadable.load live.slot.inactive file.content).1 ≠ 0) :
    Step live .failed
      ⟨live.slot.setInactive (reloadable.load live.slot.inactive file.content).2, .failed⟩
  | switch (live : Live T) (file : FileState) (loaded : live.phase = .loaded file) :
    Step live (.switch file) ⟨live.slot.switch file.getMtime, .switched⟩
  -- the updater has slept, and does not look whether anyone still holds a reference
  | clear (live : Live T) (switched : live.phase = .switched) :
    Step live .clear { live with phase := .clearing }
  | cleared (live : Live T) (clearing : live.phase = .clearing) :
    Step live .cleared ⟨live.slot.setInactive (reloadable.clear live.slot.inactive), .idle⟩

variable {reloadable}

/-- Without readers in between, the steps of the updater add up to `Update`. -/
theorem run_update (slot : Slot T) (file : FileState) :
    ∃ events phase, Run (Step reloadable) ⟨slot, .idle⟩ events
        ⟨(slot.update reloadable file).2, phase⟩ ∧
      ((slot.update reloadable file).1 = 0 → phase = .idle) ∧
      ((slot.update reloadable file).1 ≠ 0 → phase = .failed) := by
  by_cases later : slot.ts < file.getMtime
  · have begins : Step reloadable ⟨slot, .idle⟩ (.begin file) ⟨slot, .loading file⟩ :=
      .begin _ file rfl later
    by_cases done : (reloadable.load slot.inactive file.content).1 = 0
    · rw [Slot.update_of_loaded later done, ← reloadable.clear_eq]
      exact ⟨[.begin file, .loaded, .switch file, .clear, .cleared], .idle,
        .cons begins (.cons (.loaded _ file rfl done) (.cons (.switch _ file rfl)
          (.cons (.clear _ rfl) (.of_step (.cleared _ rfl))))), fun _ => rfl,
        fun other => absurd rfl other⟩
    · rw [Slot.update_of_failed later done]
      exact ⟨[.begin file, .failed], .failed, .cons begins (.of_step (.failed _ file rfl done)),
        fun code => absurd code done, fun _ => rfl⟩
  · rw [Slot.update_of_le (Int.not_lt.mp later)]
    exact ⟨[.skip file], .idle, .of_step (.skip _ file rfl (Int.not_lt.mp later)), fun _ => rfl,
      fun other => absurd rfl other⟩

variable {live next : Live T} {event : Event T}

/-- After a failed `Load` there are no further steps. -/
theorem Step.alive (step : Step reloadable live event next) : live.phase ≠ .failed := by
  intro failed
  cases step <;> simp_all [Phase.Writes]

section References

variable {W : Type}

/-- No reference to the old buffer is left when the `Clear` after a switch begins. -/
def Drained (refs : W → Option Bool) (live : Live T) (event : Event T) : Prop :=
  event = .clear → ∀ w, refs w ≠ some !live.slot.flag

/-- References point to the active buffer, except between a switch and the `Clear` after it.
A buffer that is ready to be switched to holds what the file says, which is newer. -/
structure Guarded (reloadable : Reloadable T) (live : Live T) (refs : W → Option Bool) : Prop where
  active : live.phase ≠ .switched → ∀ w, refs w ≠ some !live.slot.flag
  later : ∀ file, live.phase = .loading file ∨ live.phase = .loaded file →
    live.slot.ts < file.getMtime
  ready : ∀ file, live.phase = .loaded file →
    reloadable.load reloadable.empty file.content = (0, live.slot.inactive)

variable {refs : W → Option Bool}

theorem guarded_idle {slot : Slot T} (free : ∀ w, refs w = none) :
    Guarded reloadable ⟨slot, .idle⟩ refs where
  active _ w := by simp [free]
  later file busy := by rcases busy with busy | busy <;> cases busy
  ready file busy := by cases busy

/-- References may be given up, and new ones point to the active buffer. -/
theorem Guarded.mono {others : W → Option Bool} (guarded : Guarded reloadable live refs)
    (new : ∀ w, others w = refs w ∨ others w = none ∨ others w = some live.slot.flag) :
    Guarded reloadable live others where
  active settled w := by
    rcases new w with same | given | taken
    · rw [same]
      exact guarded.active settled w
    · simp [given]
    · simp [taken]
  later := guarded.later
  ready := guarded.ready

/-- No step changes what a reference points to. -/
theorem Step.buffer_eq (step : Step reloadable live event next)
    (guarded : Guarded reloadable live refs) {w : W} {b : Bool} (held : refs w = some b) :
    next.slot.buffer b = live.slot.buffer b := by
  -- writes go to the inactive buffer, to which there is no reference while they do
  have kept (object : T) (settled : live.phase ≠ .switched) :
      (live.slot.setInactive object).buffer b = live.slot.buffer b := by
    refine Function.update_of_ne (fun inactive => ?_) _ _
    exact guarded.active settled w (by rw [held, inactive])
  cases step with
  | skip | begin | switch | clear => rfl
  | write object writes => exact kept object fun is => by rw [is] at writes; exact writes
  | loaded file loading => exact kept _ (by simp [loading])
  | failed file loading => exact kept _ (by simp [loading])
  | cleared clearing => exact kept _ (by simp [clearing])

theorem Guarded.step (guarded : Guarded reloadable live refs)
    (step : Step reloadable live event next) (drained : Drained refs live event) :
    Guarded reloadable next refs := by
  cases step with
  | skip => exact guarded
  | begin file idle later =>
    refine ⟨fun _ => guarded.active (by simp [idle]), ?_, fun other loaded => by cases loaded⟩
    rintro other (loading | loaded)
    · cases loading
      exact later
    · cases loaded
  | write object writes =>
    refine ⟨guarded.active, guarded.later, fun file loaded => ?_⟩
    change live.phase = .loaded file at loaded
    rw [loaded] at writes
    exact writes.elim
  | loaded file loading done =>
    refine ⟨fun _ => guarded.active (by simp [loading]), ?_, ?_⟩
    · rintro other (busy | ready)
      · cases busy
      · cases ready
        exact guarded.later file (.inl loading)
    · intro other ready
      cases ready
      rw [Slot.inactive_setInactive, ← reloadable.load_fresh live.slot.inactive, ← done]
  | failed file loading =>
    refine ⟨fun _ => guarded.active (by simp [loading]), ?_, fun other loaded => by cases loaded⟩
    rintro other (busy | busy) <;> cases busy
  | switch file loaded =>
    refine ⟨fun settled => absurd rfl settled, ?_, fun other busy => by cases busy⟩
    rintro other (busy | busy) <;> cases busy
  | clear switched =>
    refine ⟨fun _ => drained rfl, ?_, fun other busy => by cases busy⟩
    rintro other (busy | busy) <;> cases busy
  | cleared clearing =>
    refine ⟨fun _ => guarded.active (by simp [clearing]), ?_, fun other busy => by cases busy⟩
    rintro other (busy | busy) <;> cases busy

/-- The version that an event makes active. -/
def Event.offers : Event T → List FileState
  | switch file => [file]
  | _ => []

/-- The cell that requests see changes only at a switch, and then the file is accepted. -/
theorem Step.cell_eq (step : Step reloadable live event next)
    (guarded : Guarded reloadable live refs) :
    (event.offers = [] ∧ next.slot.cell = live.slot.cell) ∨
      ∃ file, event = .switch file ∧
        (live.slot.cell.accepts (Slot.version reloadable file)).isSome ∧
        next.slot.cell = live.slot.cell.offer (Slot.version reloadable file) := by
  have kept (object : T) : (live.slot.setInactive object).cell = live.slot.cell := by
    rw [Slot.cell, Slot.active_setInactive, Slot.ts_setInactive, Slot.cell]
  cases step with
  | skip | begin | clear => exact .inl ⟨rfl, rfl⟩
  | write object => exact .inl ⟨rfl, kept object⟩
  | loaded | failed | cleared => exact .inl ⟨rfl, kept _⟩
  | switch file loaded =>
    have accepts : live.slot.cell.accepts (Slot.version reloadable file) =
        some (file.getMtime, live.slot.inactive) := by
      rw [Slot.accepts_cell, Slot.reloadsNow, reloadable.load_fresh, guarded.ready file loaded]
      simp [guarded.later file (.inr loaded)]
    refine .inr ⟨file, rfl, Option.isSome_of_eq_some accepts, ?_⟩
    rw [(VersionedCell.offer_of_accepts accepts).1]
    rfl

end References

end LiveUpdate

end FlowRetrieval
