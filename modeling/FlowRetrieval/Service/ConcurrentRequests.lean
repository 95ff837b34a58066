/-
# Concurrent requests

The worker threads process their requests while the thread of `main` updates the index and the
parameters. A request takes its references one after the other and reads through them step by
step; the steps of all threads interleave. Around the bids a step of a request finds anything on
the heap.

## Main results

* `LiveService.run_index` — the updater goes through its steps, whatever the workers refer to
* `LiveService.run_process` — without updates in between, the steps of a request are `Process`
-/
import FlowRetrieval.Service.InBounds
import FlowRetrieval.Service.LiveUpdate

namespace FlowRetrieval

open CS CS.Transition Targeting

/-- A memory in which both buffers of each slot are the same. -/
def SharedMemory.ofVersions {R : Type} (index : Index) (param : Param R) (dict : TargetMap) :
    SharedMemory R := ⟨⟨fun _ => index, 0, false⟩, ⟨fun _ => param, 0, false⟩, dict⟩

/-- What a request finds through references to these buffers. -/
def SharedMemory.through {R : Type} (memory : SharedMemory R) (index param : Bool) :
    SharedMemory R :=
  .ofVersions (memory.index.buffer index) (memory.param.buffer param) memory.dict

namespace LiveService

open LiveUpdate (Live Guarded Drained)

/-- Where a worker is in `Process`, and the references it holds. -/
inductive Stage where
  | idle
  | encoded (qd : QueryData)
  | indexed (qd : QueryData) (index : Bool)
  | referenced (qd : QueryData) (index param : Bool)
  | looping (qd : QueryData) (index param : Bool) (rest : List Str)
  /-- Between the two halves of the loop body. -/
  | halfway (qd : QueryData) (index param : Bool) (psid : Str) (rest : List Str)
  | exited

/-- The buffer of the index that a worker refers to. -/
def Stage.indexRef : Stage → Option Bool
  | indexed _ index => some index
  | referenced _ index _ => some index
  | looping _ index _ _ => some index
  | halfway _ index _ _ _ => some index
  | _ => none

/-- The buffer of the parameters that a worker refers to. -/
def Stage.paramRef : Stage → Option Bool
  | referenced _ _ param => some param
  | looping _ _ param _ => some param
  | halfway _ _ param _ _ => some param
  | _ => none

/-- A worker thread. -/
structure Worker (R : Type) where
  handler : RequestHandler R
  stage : Stage

/-- The next step of a worker. -/
inductive Action where
  | start (qd : QueryData)
  | getIndex
  | getParam
  | merge
  | pv
  | uv
  | answer (qd : QueryData) (text : Str)
  | exit

/-- The service: the slots in the course of updates, and the workers. -/
structure System (W R : Type) where
  index : Live Index
  param : Live (Param R)
  dict : TargetMap
  workers : W → Worker R

namespace System

variable {W R : Type} (s : System W R)

def memory : SharedMemory R := ⟨s.index.slot, s.param.slot, s.dict⟩

def indexRefs (w : W) : Option Bool := (s.workers w).stage.indexRef

def paramRefs (w : W) : Option Bool := (s.workers w).stage.paramRef

/-- No thread has ended the process. -/
def Running : Prop :=
  s.index.phase ≠ .failed ∧ s.param.phase ≠ .failed ∧ ∀ w, (s.workers w).stage ≠ .exited

/-- The service when the web server starts. -/
def serving (memory : SharedMemory R) (handlers : W → RequestHandler R) : System W R where
  index := ⟨memory.index, .idle⟩
  param := ⟨memory.param, .idle⟩
  dict := memory.dict
  workers w := ⟨handlers w, .idle⟩

variable [DecidableEq W]

/-- The service after a step of a worker. -/
def put (w : W) (worker : Worker R) : System W R :=
  { s with workers := Function.update s.workers w worker }

variable (w : W) (worker : Worker R)

@[simp] theorem workers_put : (s.put w worker).workers w = worker := Function.update_self _ _ _

@[simp] theorem workers_put_of_ne {v : W} (other : v ≠ w) :
    (s.put w worker).workers v = s.workers v := Function.update_of_ne other _ _

/-- What holds of the worker and held of the others holds of all workers after the step. -/
theorem forall_put (property : W → Worker R → Prop) (here : property w worker)
    (others : ∀ v, property v (s.workers v)) (v : W) :
    property v ((s.put w worker).workers v) :=
  (Function.forall_update_iff s.workers property).mpr ⟨here, fun v _ => others v⟩ v

@[simp] theorem memory_put : (s.put w worker).memory = s.memory := rfl

@[simp] theorem put_put (next : Worker R) : (s.put w worker).put w next = s.put w next := by
  simp [put]

end System

variable {R : Type} [Double R] (lib : DoubleLib R)

/-- The end of `Process`, behind its loop. -/
def finish (handler : RequestHandler R) (memory : SharedMemory R) (qd : QueryData) :
    RequestHandler R :=
  let handler := { handler with
    toAccumulators := handler.toAccumulators.calculate lib memory.getParam qd }
  { handler with jsonStr := handler.toAccumulators.toJson lib }

/-- One step of `Process`. Its references to the index and to the parameters stay what they were
when it took them. -/
inductive Works (memory : SharedMemory R) : Worker R → Action → Worker R → Prop
  | start (handler : RequestHandler R) (qd : QueryData) :
    Works memory ⟨handler, .idle⟩ (.start qd)
      ⟨handler.clear.encodeTargeting memory qd, .encoded qd⟩
  | getIndex (handler : RequestHandler R) (qd : QueryData) :
    Works memory ⟨handler, .encoded qd⟩ .getIndex ⟨handler, .indexed qd memory.index.flag⟩
  | getParam (handler : RequestHandler R) (qd : QueryData) (index : Bool) :
    Works memory ⟨handler, .indexed qd index⟩ .getParam
      ⟨handler, .referenced qd index memory.param.flag⟩
  | merge (handler : RequestHandler R) (qd : QueryData) (index param : Bool) (m : UvMergeBitmap)
      (found : (memory.through index param).getIndex.getUvMergeBitmap = some m) :
    Works memory ⟨handler, .referenced qd index param⟩ .merge
      ⟨handler.getUvMergeRate qd m, .looping qd index param qd.psids⟩
  -- `uv merge bitmap is not exsit`
  | exit (handler : RequestHandler R) (qd : QueryData) (index param : Bool)
      (missing : (memory.through index param).getIndex.getUvMergeBitmap = none) :
    Works memory ⟨handler, .referenced qd index param⟩ .exit ⟨handler, .exited⟩
  | pv (handler : RequestHandler R) (qd : QueryData) (index param : Bool) (psid : Str)
      (rest : List Str) (heap : HeapWords) :
    Works memory ⟨handler, .looping qd index param (psid :: rest)⟩ .pv
      ⟨handler.processPv lib (memory.through index param) qd heap psid,
        .halfway qd index param psid rest⟩
  | uv (handler : RequestHandler R) (qd : QueryData) (index param : Bool) (psid : Str)
      (rest : List Str) (heap : HeapWords) :
    Works memory ⟨handler, .halfway qd index param psid rest⟩ .uv
      ⟨handler.processUv (memory.through index param) qd heap psid,
        .looping qd index param rest⟩
  | answer (handler : RequestHandler R) (qd : QueryData) (index param : Bool) :
    Works memory ⟨handler, .looping qd index param []⟩
      (.answer qd (finish lib handler (memory.through index param) qd).getJsonResult)
      ⟨finish lib handler (memory.through index param) qd, .idle⟩

/-- What can happen next. -/
inductive Event (W R : Type) where
  | index (event : LiveUpdate.Event Index)
  | param (event : LiveUpdate.Event (Param R))
  | worker (w : W) (action : Action)

variable {W : Type} [DecidableEq W]

/-- One step of a thread. One thread updates both slots, one after the other. -/
inductive Step : System W R → Event W R → System W R → Prop
  | index (s : System W R) {event : LiveUpdate.Event Index} {live : Live Index}
      (running : s.Running) (other : s.param.phase = .idle)
      (step : LiveUpdate.Step Index.reloadable s.index event live) :
    Step s (.index event) { s with index := live }
  | param (s : System W R) {event : LiveUpdate.Event (Param R)} {live : Live (Param R)}
      (running : s.Running) (other : s.index.phase = .idle)
      (step : LiveUpdate.Step (Param.reloadable lib) s.param event live) :
    Step s (.param event) { s with param := live }
  | worker (s : System W R) (w : W) {action : Action} {next : Worker R}
      (running : s.Running) (works : Works lib s.memory (s.workers w) action next) :
    Step s (.worker w action) (s.put w next)

/-- A request is in bounds in the buffers that it refers to. -/
def Worker.Bounded (memory : SharedMemory R) (worker : Worker R) : Prop :=
  match worker.stage with
  | .referenced qd index param | .looping qd index param _ | .halfway qd index param _ _ =>
    InBounds computeBufferSize (memory.through index param) qd
  | _ => True

/-- A `Clear` begins only when no request refers to the old buffer any more, and requests are in
bounds. -/
def Orderly (s : System W R) : Event W R → Prop
  | .index event => Drained s.indexRefs s.index event
  | .param event => Drained s.paramRefs s.param event
  | .worker w _ => (s.workers w).Bounded s.memory

section Alone

variable {s : System W R} {w : W}

/-- The updater goes through its steps while the workers stay where they are. -/
theorem run_index {events : List (LiveUpdate.Event Index)} {live last : Live Index}
    (other : s.param.phase = .idle) (inside : ∀ w, (s.workers w).stage ≠ .exited)
    (run : RunWith (LiveUpdate.Step Index.reloadable) (Drained s.indexRefs) live events last) :
    RunWith (Step lib) Orderly { s with index := live } (events.map .index)
      { s with index := last } := by
  induction run with
  | nil => exact .nil _
  | @cons live next last event events head _ ih =>
    have running : System.Running { s with index := live } :=
      ⟨head.1.alive, by simp [other], inside⟩
    exact .cons ⟨.index _ running other head.1, head.2⟩ ih

/-- A step of a worker, with the others where they are. -/
theorem step_of_works (running : s.Running) {worker next : Worker R} {action : Action}
    (inside : worker.stage ≠ .exited) (works : Works lib s.memory worker action next) :
    Step lib (s.put w worker) (.worker w action) (s.put w next) := by
  have step : Step lib (s.put w worker) (.worker w action) ((s.put w worker).put w next) := by
    refine .worker _ w ⟨running.1, running.2.1, ?_⟩ (by rwa [System.workers_put])
    exact s.forall_put w worker (fun _ worker => worker.stage ≠ .exited) inside running.2.2
  rwa [System.put_put] at step

/-- The loop body of `Process`, on what a request refers to. -/
def loopBody (memory : SharedMemory R) (qd : QueryData) (heap : HeapWords)
    (handler : RequestHandler R) (psid : Str) : RequestHandler R :=
  (handler.processPv lib memory qd heap psid).processUv memory qd heap psid

/-- Without updates in between, a request goes through its positions. -/
theorem run_loop (running : s.Running) (qd : QueryData) (heap : HeapWords) (index param : Bool)
    (psids : List Str) (handler : RequestHandler R) :
    ∃ events, Run (Step lib) (s.put w ⟨handler, .looping qd index param psids⟩) events
      (s.put w ⟨psids.foldl (loopBody lib (s.memory.through index param) qd heap) handler,
        .looping qd index param []⟩) := by
  induction psids generalizing handler with
  | nil => exact ⟨[], .nil _⟩
  | cons psid rest ih =>
    obtain ⟨events, later⟩ := ih (loopBody lib (s.memory.through index param) qd heap handler psid)
    exact ⟨_, .cons (step_of_works lib running nofun (.pv handler qd index param psid rest heap))
      (.cons (step_of_works lib running nofun (.uv _ qd index param psid rest heap)) later)⟩

omit [DecidableEq W] in
/-- Through references to the active buffers a request finds what the memory holds. -/
theorem finish_through (memory : SharedMemory R) (qd : QueryData) (heap : HeapWords)
    (handler : RequestHandler R) :
    finish lib (qd.psids.foldl
        (loopBody lib (memory.through memory.index.flag memory.param.flag) qd heap) handler)
      (memory.through memory.index.flag memory.param.flag) qd =
    finish lib (qd.psids.foldl (loopBody lib memory qd heap) handler) memory qd := rfl

/-- Without updates in between, the steps of a request are `Process`. -/
theorem run_process (running : s.Running) {handler done : RequestHandler R} {qd : QueryData}
    {heap : HeapWords} (idle : s.workers w = ⟨handler, .idle⟩)
    (processed : handler.process lib s.memory qd heap = some done) :
    ∃ events, Run (Step lib) s events (s.put w ⟨done, .idle⟩) := by
  cases found : s.memory.getIndex.getUvMergeBitmap with
  | none => simp [RequestHandler.process, found] at processed
  | some m =>
    let encoded := handler.clear.encodeTargeting s.memory qd
    have processed : finish lib (qd.psids.foldl (loopBody lib s.memory qd heap)
        (encoded.getUvMergeRate qd m)) s.memory qd = done := by
      rw [RequestHandler.process] at processed
      simp only [found] at processed
      exact Option.some.inj processed
    obtain ⟨events, loop⟩ := run_loop lib (w := w) running qd heap s.memory.index.flag
      s.memory.param.flag qd.psids (encoded.getUvMergeRate qd m)
    have start : Step lib s (.worker w (.start qd)) (s.put w ⟨encoded, .encoded qd⟩) :=
      .worker s w running (by rw [idle]; exact .start handler qd)
    have getIndex := step_of_works lib (w := w) running (by simp)
      (.getIndex encoded qd)
    have getParam := step_of_works lib (w := w) running (by simp)
      (.getParam encoded qd s.memory.index.flag)
    have merge := step_of_works lib (w := w) running (by simp)
      (.merge encoded qd s.memory.index.flag s.memory.param.flag m found)
    have answer := step_of_works lib (w := w) running (by simp)
      (.answer (qd.psids.foldl (loopBody lib (s.memory.through s.memory.index.flag
        s.memory.param.flag) qd heap) (encoded.getUvMergeRate qd m)) qd s.memory.index.flag
        s.memory.param.flag)
    rw [finish_through, processed] at answer
    exact ⟨_, .cons start (.cons getIndex (.cons getParam (.cons merge
      (loop.append (.of_step answer)))))⟩

end Alone

end LiveService

end FlowRetrieval
