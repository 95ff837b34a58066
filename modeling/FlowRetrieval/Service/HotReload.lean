/-
# Hot reload under concurrent requests

Requests take a reference to the active buffer when they start and hold it until they
finish; the updater loads into the inactive buffer, switches the flag and clears the
old buffer, and never waits for requests. Nothing but the `sleep` between the switch
and the `Clear` keeps the `Clear` away from requests that started before the switch.

## Main results

* `HotReload.run_update` — without requests in between, the updater performs `Update`
* `HotReload.safe_of_drained` — no buffer in use is touched when the sleep suffices
-/
import FlowRetrieval.CS.Transition
import FlowRetrieval.Service.Main

namespace FlowRetrieval

open CS.Transition

namespace HotReload

/-- Where the updater is in a call of `Update`. -/
inductive Phase where
  | idle
  | loaded (mtime : ℤ)
  | switched
  deriving DecidableEq, Repr

/-- A slot, its updater and the requests in flight, each with its number and the buffer
its reference points to. Requests are numbered in the order in which they start. -/
structure System (T : Type) where
  slot : Slot T
  phase : Phase
  inFlight : List (ℕ × Bool)
  started : ℕ
  /-- How many requests had started at the last switch. -/
  startedAtSwitch : ℕ

/-- What can happen next. -/
inductive Event where
  | start
  | finish (request : ℕ)
  | skip (file : FileState)
  | load (file : FileState)
  | switch
  | clear

variable {T : Type} (reloadable : Reloadable T)

/-- The system before the first update and the first request. -/
def initial : System T := ⟨.fresh reloadable, .idle, [], 0, 0⟩

/-- One step of a request or of the updater. -/
inductive Step : System T → Event → System T → Prop
  | start (s : System T) :
    Step s .start
      { s with inFlight := (s.started, s.slot.flag) :: s.inFlight, started := s.started + 1 }
  | finish (s : System T) (request : ℕ) :
    Step s (.finish request)
      { s with inFlight := s.inFlight.filter fun other => other.1 ≠ request }
  -- the file is not newer, and `Update` returns at once
  | skip (s : System T) (file : FileState) (idle : s.phase = .idle)
      (old : file.getMtime ≤ s.slot.ts) : Step s (.skip file) s
  | load (s : System T) (file : FileState) (idle : s.phase = .idle)
      (later : s.slot.ts < file.getMtime) :
    Step s (.load file)
      { s with
        slot := s.slot.setInactive (reloadable.load s.slot.inactive file.content).2
        phase := if (reloadable.load s.slot.inactive file.content).1 = 0
          then .loaded file.getMtime else .idle }
  -- no step of the updater looks at `inFlight`
  | switch (s : System T) (mtime : ℤ) (loaded : s.phase = .loaded mtime) :
    Step s .switch
      { s with slot := s.slot.switch mtime, phase := .switched, startedAtSwitch := s.started }
  | clear (s : System T) (switched : s.phase = .switched) :
    Step s .clear
      { s with slot := s.slot.setInactive (reloadable.clear s.slot.inactive), phase := .idle }

variable {reloadable} in
/-- A `Load` that succeeds leaves the updater before the switch. -/
theorem Step.load_of_done {s : System T} {file : FileState} (idle : s.phase = .idle)
    (later : s.slot.ts < file.getMtime)
    (done : (reloadable.load s.slot.inactive file.content).1 = 0) :
    Step reloadable s (.load file)
      { s with
        slot := s.slot.setInactive (reloadable.load s.slot.inactive file.content).2
        phase := .loaded file.getMtime } := by
  have load : Step reloadable s (.load file) _ := .load s file idle later
  rwa [if_pos done] at load

/-- Without requests in between, the steps of the updater add up to `Update`. -/
theorem run_update (s : System T) (idle : s.phase = .idle) (file : FileState) :
    ∃ events t, Run (Step reloadable) s events t ∧ t.phase = .idle ∧ t.inFlight = s.inFlight ∧
      t.slot = (s.slot.update reloadable file).2 := by
  -- the outcomes of `Update`: reloaded, failed, not newer
  by_cases later : s.slot.ts < file.getMtime
  · by_cases done : (reloadable.load s.slot.inactive file.content).1 = 0
    · refine ⟨[.load file, .switch, .clear], _,
        .cons (.load_of_done idle later done) (.cons (.switch _ _ rfl) (.of_step (.clear _ rfl))),
        rfl, rfl, ?_⟩
      rw [Slot.update_of_loaded later done, reloadable.clear_eq]
    · have load : Step reloadable s (.load file) _ := .load s file idle later
      rw [if_neg done] at load
      refine ⟨[.load file], _, .of_step load, rfl, rfl, ?_⟩
      rw [Slot.update_of_failed later done]
  · refine ⟨[.skip file], s, .of_step (.skip s file idle (Int.not_lt.mp later)), idle, rfl, ?_⟩
    rw [Slot.update_of_le (Int.not_lt.mp later)]

/-- The buffer that an event applies `Load` or `Clear` to. -/
def touched (s : System T) : Event → Option Bool
  | .load _ => some !s.slot.flag
  | .clear => some !s.slot.flag
  | _ => none

/-- The event does not touch a buffer that a request in flight references. -/
def Safe (s : System T) (event : Event) : Prop :=
  ∀ request ∈ s.inFlight, touched s event ≠ some request.2

/-- If the event is a `Clear`, no request that was in flight at the switch before it is
still in flight. -/
def Drained (s : System T) (event : Event) : Prop :=
  event = .clear → ∀ request ∈ s.inFlight, s.startedAtSwitch ≤ request.1

/-- Requests reference the active buffer, except between a switch and the `Clear` that
follows it, when those from before the switch reference the other one. -/
structure Invariant (s : System T) : Prop where
  numbered : ∀ request ∈ s.inFlight, request.1 < s.started
  active : ∀ request ∈ s.inFlight, request.2 = (!s.slot.flag) →
    s.phase = .switched ∧ request.1 < s.startedAtSwitch

variable {reloadable}

theorem Invariant.step {s t : System T} {event : Event} (invariant : Invariant s)
    (step : Step reloadable s event t) (drained : Drained s event) : Invariant t := by
  cases step with
  | start =>
    constructor
    · intro request member
      rcases List.mem_cons.mp member with rfl | old
      · exact Nat.lt_succ_self _
      · exact Nat.lt_succ_of_lt (invariant.numbered request old)
    · intro request member other
      rcases List.mem_cons.mp member with rfl | old
      -- a request takes the active buffer when it starts
      · exact absurd other (Bool.eq_not_self _).mp
      · exact invariant.active request old other
  | finish request =>
    exact ⟨fun other member => invariant.numbered other (List.mem_of_mem_filter member),
      fun other member => invariant.active other (List.mem_of_mem_filter member)⟩
  | skip => exact invariant
  | load file idle later =>
    refine ⟨invariant.numbered, ?_⟩
    intro request member other
    -- between two calls of `Update` every request references the active buffer
    obtain ⟨switched, -⟩ := invariant.active request member other
    rw [idle] at switched
    cases switched
  | switch mtime loaded =>
    -- now the requests in flight reference the other buffer, all of them older than the switch
    exact ⟨invariant.numbered, fun request member _ => ⟨rfl, invariant.numbered request member⟩⟩
  | clear switched =>
    refine ⟨invariant.numbered, ?_⟩
    intro request member other
    -- the requests that reference the other buffer started before the switch, and none is left
    have before := (invariant.active request member other).2
    have after := drained rfl request member
    omega

theorem Invariant.safe {s t : System T} {event : Event} (invariant : Invariant s)
    (step : Step reloadable s event t) (drained : Drained s event) : Safe s event := by
  intro request member touches
  cases step with
  | start => cases touches
  | finish => cases touches
  | skip => cases touches
  | switch => cases touches
  | load file idle later =>
    obtain ⟨switched, -⟩ := invariant.active request member (Option.some.inj touches).symm
    rw [idle] at switched
    cases switched
  | clear switched =>
    have before := (invariant.active request member (Option.some.inj touches).symm).2
    have after := drained rfl request member
    omega

theorem invariant_initial : Invariant (initial reloadable) :=
  ⟨by simp [initial], by simp [initial]⟩

/-- In every interleaving of requests and updates in which the requests in flight at a
switch have finished before the `Clear` that follows it, no `Load` and no `Clear` is
applied to a buffer that a request in flight references. -/
theorem safe_of_drained (reloadable : Reloadable T) (events : List Event) (s t : System T)
    (event : Event) (run : RunWith (Step reloadable) Drained (initial reloadable) events s)
    (step : Step reloadable s event t) (drained : Drained s event) : Safe s event := by
  -- the invariant holds along the run, and it makes the next step safe
  have invariant : Invariant s := run.invariant invariant_initial
    fun _ _ _ step invariant => invariant.step step.1 step.2
  exact invariant.safe step drained

section Single

open SharedMemory (singleIndexFile load_singleIndexFile)

/-- A request starts, and the load of a file that can be read and a switch follow. -/
theorem run_switched (file : FileState) (later : 0 < file.getMtime)
    (done : (reloadable.load reloadable.empty file.content).1 = 0) :
    ∃ s, RunWith (Step reloadable) Drained (initial reloadable)
        [.start, .load file, .switch] s ∧
      s.phase = .switched ∧ s.inFlight = [(0, false)] ∧ s.slot.flag = true := by
  have load : Step reloadable
      { initial reloadable with inFlight := [(0, false)], started := 1 } (.load file) _ :=
    .load_of_done rfl later done
  exact ⟨_, .cons ⟨.start _, nofun⟩ (.cons ⟨load, nofun⟩ (.of_step ⟨.switch _ _ rfl, nofun⟩)),
    rfl, rfl, rfl⟩

theorem loads_singleIndexFile :
    (Index.reloadable.load Index.reloadable.empty singleIndexFile.content).1 = 0 := by
  rw [Index.reloadable_load_code]
  exact load_singleIndexFile _

/-- After the request has finished, the `Clear` is safe. -/
theorem safe_clear_single :
    ∃ s t, RunWith (Step Index.reloadable) Drained (initial Index.reloadable)
        ([.start, .load singleIndexFile, .switch] ++ [.finish 0]) s ∧
      Step Index.reloadable s .clear t ∧ Safe s .clear := by
  obtain ⟨s, run, switched, inFlight, -⟩ :=
    run_switched singleIndexFile Int.one_pos loads_singleIndexFile
  have whole := run.append (.of_step ⟨.finish s 0, nofun⟩)
  have clear : Step Index.reloadable
      { s with inFlight := s.inFlight.filter fun other => other.1 ≠ 0 } .clear _ :=
    .clear _ switched
  refine ⟨_, _, whole, clear, safe_of_drained _ _ _ _ _ whole clear ?_⟩
  intro _ request member
  simp [inFlight] at member

/-- While the request is still in flight, the `Clear` empties the index it uses. -/
theorem not_safe_clear_single :
    ∃ s t, Run (Step Index.reloadable) (initial Index.reloadable)
        [.start, .load singleIndexFile, .switch] s ∧
      Step Index.reloadable s .clear t ∧ ¬ Safe s .clear := by
  obtain ⟨s, run, switched, inFlight, flag⟩ :=
    run_switched singleIndexFile Int.one_pos loads_singleIndexFile
  refine ⟨s, _, ?_, .clear s switched, fun safe => ?_⟩
  · exact run.imp fun _ _ _ step => step.1
  -- request 0 references the buffer that was active when it started
  · exact safe (0, false) (by rw [inFlight]; exact List.mem_cons_self) (by simp [touched, flag])

end Single

end HotReload

end FlowRetrieval
