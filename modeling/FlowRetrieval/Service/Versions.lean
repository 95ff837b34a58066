/-
# Answers from versions

What a service with hot reload is for: the index and the parameters are cells that a newer file
replaces at once, a request takes one version of each, and its answer is the report on these two.
The service that works on buffers refines this one, in every interleaving in which a `Clear` begins
only when no request refers to the old buffer any more and requests are in bounds.

## Main results

* `LiveService.refines_of_orderly` — the service refines one that answers from versions
* `LiveService.answers_of_orderly` — every answer is a report on versions that were loaded
-/
import FlowRetrieval.Service.ConcurrentRequests
import FlowRetrieval.Service.Isolation

namespace FlowRetrieval

open CS CS.Transition

namespace LiveService

open LiveUpdate (Live Guarded)

variable {R : Type} [Double R] (lib : DoubleLib R) {W : Type} [DecidableEq W]

/-- What a request knows that is answered from versions. -/
inductive Client (R : Type) where
  | idle
  | started (qd : QueryData)
  | indexed (qd : QueryData) (index : Index)
  | ready (qd : QueryData) (index : Index) (param : Param R)
  | exited

/-- A service in which versions replace each other at once, and requests are answered at once. -/
structure Versions (W R : Type) where
  index : VersionedCell ℤ Index
  param : VersionedCell ℤ (Param R)
  dict : TargetMap
  clients : W → Client R

/-- What an observer sees of the service. -/
inductive Observation (W : Type) where
  | reloadIndex (file : FileState)
  | reloadParam (file : FileState)
  | start (w : W) (qd : QueryData)
  | takeIndex (w : W)
  | takeParam (w : W)
  | answer (w : W) (qd : QueryData) (text : Str)
  | exit (w : W)

/-- One step of a service that answers from versions. -/
inductive Versions.Step : Versions W R → Observation W → Versions W R → Prop
  | reloadIndex (s : Versions W R) (file : FileState)
      (accepts : (s.index.accepts (Slot.version Index.reloadable file)).isSome) :
    Step s (.reloadIndex file)
      { s with index := s.index.offer (Slot.version Index.reloadable file) }
  | reloadParam (s : Versions W R) (file : FileState)
      (accepts : (s.param.accepts (Slot.version (Param.reloadable lib) file)).isSome) :
    Step s (.reloadParam file)
      { s with param := s.param.offer (Slot.version (Param.reloadable lib) file) }
  | start (s : Versions W R) (w : W) (qd : QueryData) (idle : s.clients w = .idle) :
    Step s (.start w qd) { s with clients := Function.update s.clients w (.started qd) }
  | takeIndex (s : Versions W R) (w : W) (qd : QueryData) (started : s.clients w = .started qd) :
    Step s (.takeIndex w)
      { s with clients := Function.update s.clients w (.indexed qd s.index.value) }
  | takeParam (s : Versions W R) (w : W) (qd : QueryData) (index : Index)
      (indexed : s.clients w = .indexed qd index) :
    Step s (.takeParam w)
      { s with clients := Function.update s.clients w (.ready qd index s.param.value) }
  | answer (s : Versions W R) (w : W) (qd : QueryData) (index : Index) (param : Param R)
      (acc : Accumulators R) (ready : s.clients w = .ready qd index param)
      (reported : ∀ heap, report lib (.ofVersions index param s.dict) qd heap = some acc) :
    Step s (.answer w qd (acc.toJson lib)) { s with clients := Function.update s.clients w .idle }
  | exit (s : Versions W R) (w : W) (qd : QueryData) (index : Index) (param : Param R)
      (ready : s.clients w = .ready qd index param) (missing : index.getUvMergeBitmap = none) :
    Step s (.exit w) { s with clients := Function.update s.clients w .exited }

/-- What is observed of a step. -/
def Event.observed : Event W R → List (Observation W)
  | .index event => event.offers.map .reloadIndex
  | .param event => event.offers.map .reloadParam
  | .worker w (.start qd) => [.start w qd]
  | .worker w .getIndex => [.takeIndex w]
  | .worker w .getParam => [.takeParam w]
  | .worker w (.answer qd text) => [.answer w qd text]
  | .worker w .exit => [.exit w]
  | _ => []

/-- The versions that a worker refers to. -/
def clientOf (memory : SharedMemory R) : Stage → Client R
  | .idle => .idle
  | .encoded qd => .started qd
  | .indexed qd index => .indexed qd (memory.index.buffer index)
  | .referenced qd index param | .looping qd index param _ | .halfway qd index param _ _ =>
    .ready qd (memory.index.buffer index) (memory.param.buffer param)
  | .exited => .exited

/-- The service, with the buffers replaced by the versions in them. -/
def System.versions (s : System W R) : Versions W R where
  index := s.index.slot.cell
  param := s.param.slot.cell
  dict := s.dict
  clients w := clientOf s.memory (s.workers w).stage

section Tracked

/-- What has been computed of a request, in terms of the report on the buffers it refers to. -/
def Tracked (memory : SharedMemory R) (worker : Worker R) : Prop :=
  match worker.stage with
  | .idle | .exited => True
  | .encoded qd | .indexed qd _ | .referenced qd _ _ =>
    ∃ self : RequestHandler R, worker.handler = self.clear.encodeTargeting memory qd
  | .looping qd index param rest =>
    rest ⊆ qd.psids ∧
    ∃ m acc, (memory.through index param).getIndex.getUvMergeBitmap = some m ∧
      RequestHandler.Tracks (memory.through index param) qd worker.handler acc ∧
      ∀ heap, Report.total lib (memory.through index param) qd heap acc rest =
        Report.total lib (memory.through index param) qd heap (Report.start qd m) qd.psids
  | .halfway qd index param psid rest =>
    psid :: rest ⊆ qd.psids ∧
    ∃ m acc, (memory.through index param).getIndex.getUvMergeBitmap = some m ∧
      RequestHandler.Tracks (memory.through index param) qd worker.handler acc ∧
      ∀ heap, Report.total lib (memory.through index param) qd heap
          (Report.addUv (memory.through index param) qd heap acc psid) rest =
        Report.total lib (memory.through index param) qd heap (Report.start qd m) qd.psids

variable {lib} {memory next : SharedMemory R} {worker done : Worker R} {action : Action}

/-- A request notices nothing of what happens in buffers it does not refer to. -/
theorem Tracked.frame (tracked : Tracked lib memory worker) (dict : next.dict = memory.dict)
    (index : ∀ b, worker.stage.indexRef = some b → next.index.buffer b = memory.index.buffer b)
    (param : ∀ b, worker.stage.paramRef = some b → next.param.buffer b = memory.param.buffer b) :
    Tracked lib next worker := by
  obtain ⟨handler, stage⟩ := worker
  have encodes (self : RequestHandler R) (qd : QueryData) :
      self.encodeTargeting next qd = self.encodeTargeting memory qd := by
    have ids : next.getTargetId = memory.getTargetId := by
      funext target
      rw [SharedMemory.getTargetId, dict, SharedMemory.getTargetId]
    rw [RequestHandler.encodeTargeting, ids, RequestHandler.encodeTargeting]
  cases stage with
  | idle | exited => exact tracked
  | encoded qd | indexed qd | referenced qd =>
    obtain ⟨self, encoded⟩ := tracked
    exact ⟨self, encoded.trans (encodes self.clear qd).symm⟩
  | looping qd i p | halfway qd i p =>
    have same : next.through i p = memory.through i p := by
      rw [SharedMemory.through, index i rfl, param p rfl, dict, SharedMemory.through]
    simp only [Tracked, same]
    exact tracked

omit [Double R] in
theorem clientOf_frame {stage : Stage}
    (index : ∀ b, stage.indexRef = some b → next.index.buffer b = memory.index.buffer b)
    (param : ∀ b, stage.paramRef = some b → next.param.buffer b = memory.param.buffer b) :
    clientOf next stage = clientOf memory stage := by
  cases stage with
  | idle | exited | encoded => rfl
  | indexed qd i => rw [clientOf, index i rfl, clientOf]
  | referenced qd i p | looping qd i p | halfway qd i p =>
    rw [clientOf, index i rfl, param p rfl, clientOf]

/-- Every step of a request in bounds computes what the report does. -/
theorem Works.tracked (works : Works lib memory worker action done)
    (tracked : Tracked lib memory worker) (bounded : worker.Bounded memory) :
    Tracked lib memory done := by
  cases works with
  | start handler qd => exact ⟨handler, rfl⟩
  | getIndex | getParam => exact tracked
  | merge handler qd index param m found =>
    obtain ⟨self, encoded⟩ := tracked
    refine ⟨List.Subset.refl _, m, _, found, ?_, fun _ => rfl⟩
    change RequestHandler.Tracks _ qd (handler.getUvMergeRate qd m) _
    rw [show handler = self.clear.encodeTargeting memory qd from encoded]
    exact RequestHandler.tracks_start (memory.through index param) qd self m
  | exit | answer => trivial
  | pv handler qd index param psid rest heap =>
    obtain ⟨inside, m, acc, found, tracks, total⟩ := tracked
    refine ⟨inside, m, _, found, tracks.processPv lib heap psid, fun other => ?_⟩
    -- the words around the bids do not matter
    rw [InBounds.addPv_eq bounded (inside List.mem_cons_self) heap other]
    exact total other
  | uv handler qd index param psid rest heap =>
    obtain ⟨inside, m, acc, found, tracks, total⟩ := tracked
    refine ⟨fun _ later => inside (List.mem_cons_of_mem _ later), m, _, found,
      tracks.processUv heap psid, fun other => ?_⟩
    rw [InBounds.addUv_eq bounded (inside List.mem_cons_self) heap other]
    exact total other

end Tracked

section Refinement

variable {lib} {s t : System W R}

/-- The references of a step of a worker: as before, given up, or to the active buffer. -/
theorem Works.refs {memory : SharedMemory R} {worker done : Worker R} {action : Action}
    (works : Works lib memory worker action done) :
    (done.stage.indexRef = worker.stage.indexRef ∨ done.stage.indexRef = none ∨
        done.stage.indexRef = some memory.index.flag) ∧
      (done.stage.paramRef = worker.stage.paramRef ∨ done.stage.paramRef = none ∨
        done.stage.paramRef = some memory.param.flag) := by
  cases works <;> simp [Stage.indexRef, Stage.paramRef]

variable (lib) in
/-- No reference leads to a buffer that is written, and the requests compute reports. -/
structure Invariant (s : System W R) : Prop where
  index : Guarded Index.reloadable s.index s.indexRefs
  param : Guarded (Param.reloadable lib) s.param s.paramRefs
  tracked : ∀ w, Tracked lib s.memory (s.workers w)

omit [DecidableEq W] in
theorem invariant_serving (memory : SharedMemory R) (handlers : W → RequestHandler R) :
    Invariant lib (System.serving memory handlers) where
  index := LiveUpdate.guarded_idle fun _ => rfl
  param := LiveUpdate.guarded_idle fun _ => rfl
  tracked _ := trivial

/-- What references point to does not change when a slot is updated. -/
theorem Invariant.step {event : Event W R} (invariant : Invariant lib s)
    (step : Step lib s event t) (orderly : Orderly s event) : Invariant lib t := by
  obtain ⟨index, param, tracked⟩ := invariant
  cases step with
  | index running other step =>
    exact ⟨index.step step orderly, param,
      fun w => (tracked w).frame rfl (fun b held => step.buffer_eq index held) fun _ _ => rfl⟩
  | param running other step =>
    exact ⟨index, param.step step orderly,
      fun w => (tracked w).frame rfl (fun _ _ => rfl) fun b held => step.buffer_eq param held⟩
  | worker w running works =>
    obtain ⟨indexRef, paramRef⟩ := works.refs
    refine ⟨index.mono ?_, param.mono ?_, ?_⟩
    · exact s.forall_put w _ (fun v worker => worker.stage.indexRef = s.indexRefs v ∨
        worker.stage.indexRef = none ∨ worker.stage.indexRef = some s.index.slot.flag)
        indexRef fun _ => .inl rfl
    · exact s.forall_put w _ (fun v worker => worker.stage.paramRef = s.paramRefs v ∨
        worker.stage.paramRef = none ∨ worker.stage.paramRef = some s.param.slot.flag)
        paramRef fun _ => .inl rfl
    · exact s.forall_put w _ (fun _ => Tracked lib s.memory) (works.tracked (tracked w) orderly)
        tracked

omit [Double R] in
/-- The versions after a step of a worker. -/
theorem versions_put (w : W) (worker : Worker R) :
    (s.put w worker).versions = { s.versions with
      clients := Function.update s.versions.clients w (clientOf s.memory worker.stage) } := by
  have clients : (fun v => clientOf s.memory ((s.put w worker).workers v).stage) =
      Function.update (fun v => clientOf s.memory (s.workers v).stage) w
        (clientOf s.memory worker.stage) := by
    funext v
    by_cases same : v = w
    · rw [same, System.workers_put, Function.update_self]
    · rw [System.workers_put_of_ne _ _ _ same, Function.update_of_ne same]
  exact congrArg (fun clients => { s.versions with clients }) clients

/-- A step of a worker is a step of its request, or changes nothing of what it refers to. -/
theorem Works.simulated {w : W} {action : Action} {next : Worker R}
    (works : Works lib s.memory (s.workers w) action next)
    (tracked : Tracked lib s.memory (s.workers w)) :
    Run (Versions.Step lib) s.versions (Event.observed (R := R) (.worker w action))
      (s.put w next).versions := by
  rw [versions_put]
  -- the request of the worker, before and after the step
  have client : s.versions.clients w = clientOf s.memory (s.workers w).stage := rfl
  have silent (same : clientOf s.memory next.stage = clientOf s.memory (s.workers w).stage) :
      Run (Versions.Step lib) s.versions [] { s.versions with
        clients := Function.update s.versions.clients w (clientOf s.memory next.stage) } := by
    rw [same, ← client, Function.update_eq_self]
    exact .nil _
  generalize s.workers w = worker at works tracked client silent
  cases works with
  | start handler qd => exact .of_step (.start _ w qd client)
  | getIndex handler qd => exact .of_step (.takeIndex _ w qd client)
  | getParam handler qd index => exact .of_step (.takeParam _ w qd _ client)
  | merge | pv | uv => exact silent rfl
  | exit handler qd index param missing => exact .of_step (.exit _ w qd _ _ client missing)
  | answer handler qd index param =>
    obtain ⟨-, m, acc, found, tracks, total⟩ := tracked
    have reported (heap : HeapWords) : report lib (s.memory.through index param) qd heap =
        some (acc.calculate lib (s.memory.through index param).getParam qd) := by
      rw [report, found, Option.map_some, ← total]
      rfl
    have text : (finish lib handler (s.memory.through index param) qd).getJsonResult =
        (acc.calculate lib (s.memory.through index param).getParam qd).toJson lib := by
      rw [← tracks.sums]
      rfl
    rw [text]
    exact .of_step (.answer _ w qd _ _ _ client reported)

/-- Every step of the service is a step of the service that answers from versions, or is not
observed. -/
theorem Step.simulated {event : Event W R} (step : Step lib s event t)
    (invariant : Invariant lib s) :
    Run (Versions.Step lib) s.versions event.observed t.versions := by
  cases step with
  | @index event live running other step =>
    -- the requests do not see the slot change
    have clients (w : W) : clientOf (System.memory { s with index := live }) (s.workers w).stage =
        clientOf s.memory (s.workers w).stage :=
      clientOf_frame (fun b held => step.buffer_eq invariant.index held) fun _ _ => rfl
    have versions : System.versions { s with index := live } =
        { s.versions with index := live.slot.cell } := by
      simp only [System.versions, clients]
    rw [versions, Event.observed]
    rcases step.cell_eq invariant.index with ⟨none, same⟩ | ⟨file, rfl, accepts, offered⟩
    · rw [none, same]
      exact .nil _
    · rw [offered]
      exact .of_step (.reloadIndex _ file accepts)
  | @param event live running other step =>
    have clients (w : W) : clientOf (System.memory { s with param := live }) (s.workers w).stage =
        clientOf s.memory (s.workers w).stage :=
      clientOf_frame (fun _ _ => rfl) fun b held => step.buffer_eq invariant.param held
    have versions : System.versions { s with param := live } =
        { s.versions with param := live.slot.cell } := by
      simp only [System.versions, clients]
    rw [versions, Event.observed]
    rcases step.cell_eq invariant.param with ⟨none, same⟩ | ⟨file, rfl, accepts, offered⟩
    · rw [none, same]
      exact .nil _
    · rw [offered]
      exact .of_step (.reloadParam _ file accepts)
  | worker w running works => exact works.simulated (invariant.tracked w)

theorem Invariant.refines {events : List (Event W R)} (invariant : Invariant lib s)
    (run : RunWith (Step lib) Orderly s events t) :
    Run (Versions.Step lib) s.versions (events.flatMap Event.observed) t.versions :=
  run.simulate invariant (fun _ _ _ step invariant => invariant.step step.1 step.2)
    fun _ _ _ step invariant => step.1.simulated invariant

end Refinement

section Answers

/-- A version of the index: the one that the service starts with, or one that is loaded. -/
def IsIndex (observations : List (Observation W)) (start index : Index) : Prop :=
  index = start ∨ ∃ file, .reloadIndex file ∈ observations ∧
    Index.reloadable.load Index.reloadable.empty file.content = (0, index)

/-- A version of the parameters: the one that the service starts with, or one that is loaded. -/
def IsParam (observations : List (Observation W)) (start param : Param R) : Prop :=
  param = start ∨ ∃ file, .reloadParam file ∈ observations ∧
    (Param.reloadable lib).load (Param.reloadable lib).empty file.content = (0, param)

/-- The versions that requests hold are versions, and none ended the process. -/
def Client.Holds (isIndex : Index → Prop) (isParam : Param R → Prop) : Client R → Prop
  | idle => True
  | started _ => True
  | indexed _ index => isIndex index
  | ready _ index param => isIndex index ∧ isParam param
  | exited => False

/-- All versions are versions of the index and of the parameters. -/
structure Versions.Hold (isIndex : Index → Prop) (isParam : Param R → Prop) (s : Versions W R) :
    Prop where
  index : isIndex s.index.value
  param : isParam s.param.value
  clients : ∀ w, (s.clients w).Holds isIndex isParam

/-- An accepted file has been loaded, and its object is the new version. -/
theorem load_of_accepts {T : Type} {reloadable : Reloadable T} {cell : VersionedCell ℤ T}
    {file : FileState} (accepts : (cell.accepts (Slot.version reloadable file)).isSome) :
    reloadable.load reloadable.empty file.content =
      (0, (cell.offer (Slot.version reloadable file)).value) := by
  have later : ¬(Slot.version reloadable file).1 ≤ cell.stamp := by
    intro old
    rw [VersionedCell.accepts, if_pos old] at accepts
    cases accepts
  have done : (reloadable.load reloadable.empty file.content).1 = 0 := by
    by_contra failed
    rw [VersionedCell.accepts, if_neg later] at accepts
    simp [Slot.version, failed] at accepts
  rw [VersionedCell.offer, if_neg later]
  simp only [Slot.version, done, if_true]
  exact Prod.ext done rfl

/-- A loaded index has its merge bitmap. -/
theorem isSome_merge_of_load {content : Option (List UInt8)} {index : Index}
    (load : Index.reloadable.load Index.reloadable.empty content = (0, index)) :
    index.getUvMergeBitmap.isSome := by
  rcases Index.load_cases .empty content with ⟨failed, -⟩ | ⟨-, m, -, -, found, -⟩
  · exact absurd (congrArg Prod.fst load) failed
  · have same : (Index.empty.load content).index = index := congrArg Prod.snd load
    rw [← same]
    exact Option.isSome_of_eq_some found

variable {lib} {isIndex : Index → Prop} {isParam : Param R → Prop}

omit [Double R] in
theorem Versions.Hold.client {s : Versions W R} (hold : s.Hold isIndex isParam) {w : W}
    {client : Client R} (holds : client.Holds isIndex isParam) :
    Versions.Hold isIndex isParam
      { s with clients := Function.update s.clients w client } where
  index := hold.index
  param := hold.param
  clients := (Function.forall_update_iff s.clients
    fun _ client => client.Holds isIndex isParam).mpr ⟨holds, fun v _ => hold.clients v⟩

/-- What the service observes: only loaded objects become versions, and an answer is a report on
two of them. -/
def Observation.Sound (lib : DoubleLib R) (dict : TargetMap) (isIndex : Index → Prop)
    (isParam : Param R → Prop) : Observation W → Prop
  | .answer _ qd text => ∃ index param acc, isIndex index ∧ isParam param ∧
      (∀ heap, report lib (.ofVersions index param dict) qd heap = some acc) ∧
      text = acc.toJson lib
  | .exit _ => False
  | _ => True

variable {s t : Versions W R} {observation : Observation W}

theorem Versions.Step.dict_eq (step : Versions.Step lib s observation t) : t.dict = s.dict := by
  cases step <;> rfl

/-- If loaded objects are versions, and each index has its merge bitmap, then a step keeps to
versions, and answers are reports on versions. -/
theorem Versions.Step.hold (step : Versions.Step lib s observation t)
    (hold : s.Hold isIndex isParam)
    (indexes : ∀ file index, observation = .reloadIndex file →
      Index.reloadable.load Index.reloadable.empty file.content = (0, index) → isIndex index)
    (params : ∀ file param, observation = .reloadParam file →
      (Param.reloadable lib).load (Param.reloadable lib).empty file.content = (0, param) →
        isParam param)
    (merged : ∀ index, isIndex index → index.getUvMergeBitmap.isSome) :
    t.Hold isIndex isParam ∧ observation.Sound lib s.dict isIndex isParam := by
  cases step with
  | reloadIndex file accepts =>
    exact ⟨⟨indexes file _ rfl (load_of_accepts accepts), hold.param, hold.clients⟩, trivial⟩
  | reloadParam file accepts =>
    exact ⟨⟨hold.index, params file _ rfl (load_of_accepts accepts), hold.clients⟩, trivial⟩
  | start w qd => exact ⟨hold.client trivial, trivial⟩
  | takeIndex w qd => exact ⟨hold.client hold.index, trivial⟩
  | takeParam w qd index indexed =>
    have held := hold.clients w
    rw [indexed] at held
    exact ⟨hold.client ⟨held, hold.param⟩, trivial⟩
  | answer w qd index param acc ready reported =>
    have held := hold.clients w
    rw [ready] at held
    exact ⟨hold.client trivial, index, param, acc, held.1, held.2, reported, rfl⟩
  | exit w qd index param ready missing =>
    have held := hold.clients w
    rw [ready] at held
    have present := merged index held.1
    rw [missing] at present
    cases present

/-- If the service starts with an index that has its merge bitmap, then in every such
interleaving no request ends the process, and every answer is the report on an index and on
parameters that the service started with or has loaded since, whatever is on the heap. -/
theorem answers_of_orderly (lib : DoubleLib R) (memory : SharedMemory R)
    (handlers : W → RequestHandler R) (present : memory.getIndex.getUvMergeBitmap.isSome)
    (events : List (Event W R)) (t : System W R)
    (run : RunWith (Step lib) Orderly (System.serving memory handlers) events t) :
    (∀ w, (t.workers w).stage ≠ .exited) ∧
      ∀ w qd text, .worker w (.answer qd text) ∈ events → ∃ index param acc,
        IsIndex (events.flatMap Event.observed) memory.getIndex index ∧
        IsParam lib (events.flatMap Event.observed) memory.getParam param ∧
        (∀ heap, report lib (.ofVersions index param memory.dict) qd heap = some acc) ∧
        text = acc.toJson lib := by
  have observed := ((invariant_serving memory handlers).refines run).labelled
  let isIndex := IsIndex (events.flatMap Event.observed) memory.getIndex
  let isParam := IsParam lib (events.flatMap Event.observed) memory.getParam
  have merged (index : Index) (is : isIndex index) : index.getUvMergeBitmap.isSome := by
    rcases is with rfl | ⟨file, -, load⟩
    · exact present
    · exact isSome_merge_of_load load
  have step (s : Versions W R) (observation : Observation W) (t : Versions W R)
      (step : Versions.Step lib s observation t ∧ observation ∈ events.flatMap Event.observed)
      (held : s.dict = memory.dict ∧ s.Hold isIndex isParam) :
      t.Hold isIndex isParam ∧ observation.Sound lib s.dict isIndex isParam :=
    step.1.hold held.2 (fun file index is load => .inr ⟨file, is ▸ step.2, load⟩)
      (fun file param is load => .inr ⟨file, is ▸ step.2, load⟩) merged
  have start : (System.serving memory handlers).versions.dict = memory.dict ∧
      (System.serving memory handlers).versions.Hold isIndex isParam :=
    ⟨rfl, .inl rfl, .inl rfl, fun _ => trivial⟩
  have kept (s : Versions W R) (observation : Observation W) (t : Versions W R)
      (taken : Versions.Step lib s observation t ∧ observation ∈ events.flatMap Event.observed)
      (held : s.dict = memory.dict ∧ s.Hold isIndex isParam) :
      t.dict = memory.dict ∧ t.Hold isIndex isParam :=
    ⟨taken.1.dict_eq.trans held.1, (step s observation t taken held).1⟩
  constructor
  · intro w exited
    have holds := (observed.invariant start kept).2.clients w
    change (clientOf t.memory (t.workers w).stage).Holds isIndex isParam at holds
    rwa [exited] at holds
  · intro w qd text answered
    have sound := observed.forall_label start kept
      (fun s observation t taken held => held.1 ▸ (step s observation t taken held).2)
      (.answer w qd text) (List.mem_flatMap.mpr ⟨_, answered, List.mem_singleton_self _⟩)
    exact sound

end Answers

section Single

open SharedMemory (singleIndexFile load_singleIndexFile)

/-- A memory whose index has a merge bitmap only. -/
def mergeMemory : SharedMemory ℚ := .ofVersions (Isolation.mergeOnly [97]) .empty .empty

/-- It has no bids to read. -/
theorem inBounds_mergeMemory (qd : QueryData) :
    InBounds Targeting.computeBufferSize mergeMemory qd := by
  have stored : mergeMemory.getIndex = _ := Isolation.mergeOnly_eq [97]
  constructor
  · intro psid _ b found
    rw [stored] at found
    cases found
  · intro psid _ b found
    rw [stored] at found
    cases found
  · intro m found
    rw [stored] at found
    obtain rfl := Option.some.inj found
    exact InBounds.readable_singleMerge [97] qd.psids

/-- One worker that is waiting. -/
def waiting : System Unit ℚ := .serving mergeMemory fun _ => RequestHandler.blankHandler

/-- The index after a newer one is loaded and switched to. -/
def switchedIndex : Live Index where
  slot := ((mergeMemory.index.setInactive .empty).setInactive
    (Index.reloadable.load (mergeMemory.index.setInactive .empty).inactive
      singleIndexFile.content).2).switch singleIndexFile.getMtime
  phase := .switched

/-- A request takes its reference to the index, and before it goes on, a newer index is loaded and
switched to. The old one is cleared after the answer. -/
def acrossSwitch (text : Str) : List (Event Unit ℚ) :=
  [.worker () (.start (RequestHandler.singleQuery [])), .worker () .getIndex] ++
    [.begin singleIndexFile, .write .empty, .loaded, .switch singleIndexFile].map .index ++
    [.worker () .getParam, .worker () .merge, .worker () .pv, .worker () .uv,
      .worker () (.answer (RequestHandler.singleQuery []) text)] ++ [.clear, .cleared].map .index

theorem runs_switch {refs : Unit → Option Bool} :
    RunWith (LiveUpdate.Step Index.reloadable) (LiveUpdate.Drained refs)
      ⟨mergeMemory.index, .idle⟩
      [.begin singleIndexFile, .write .empty, .loaded, .switch singleIndexFile] switchedIndex := by
  have loads : (Index.reloadable.load (mergeMemory.index.setInactive .empty).inactive
      singleIndexFile.content).1 = 0 := by
    rw [Index.reloadable_load_code]
    exact load_singleIndexFile _
  have begins : LiveUpdate.Step Index.reloadable ⟨mergeMemory.index, .idle⟩
      (.begin singleIndexFile) ⟨mergeMemory.index, .loading singleIndexFile⟩ :=
    .begin _ _ rfl Int.one_pos
  exact .cons ⟨begins, nofun⟩ <| .cons ⟨.write _ _ trivial, nofun⟩ <|
    .cons ⟨.loaded _ _ rfl loads, nofun⟩ <| .of_step ⟨.switch _ _ rfl, nofun⟩

theorem running_waiting (live : Live Index) (alive : live.phase ≠ .failed) :
    System.Running { waiting with index := live } :=
  ⟨alive, nofun, fun _ => nofun⟩

theorem run_acrossSwitch (heap : HeapWords) :
    ∃ text t, RunWith (Step DoubleLib.integral) Orderly waiting (acrossSwitch text) t := by
  let query := RequestHandler.singleQuery []
  let switched : System Unit ℚ := { waiting with index := switchedIndex }
  let view := switched.memory.through false false
  let encoded := RequestHandler.blankHandler.clear.encodeTargeting mergeMemory query
  let rated := encoded.getUvMergeRate query (Index.singleMerge [97])
  let halfway := rated.processPv DoubleLib.integral view query heap []
  let looped := halfway.processUv view query heap []
  let last := finish DoubleLib.integral looped view query
  have first := running_waiting ⟨mergeMemory.index, .idle⟩ nofun
  have second := running_waiting switchedIndex nofun
  have start : Step DoubleLib.integral waiting (.worker () (.start query))
      (waiting.put () ⟨encoded, .encoded query⟩) := .worker _ () first (.start _ _)
  have getIndex : Step DoubleLib.integral (waiting.put () ⟨encoded, .encoded query⟩)
      (.worker () .getIndex) (waiting.put () ⟨encoded, .indexed query false⟩) :=
    step_of_works _ first nofun (.getIndex encoded query)
  have switch : RunWith (Step DoubleLib.integral) Orderly
      (waiting.put () ⟨encoded, .indexed query false⟩)
      ([.begin singleIndexFile, .write .empty, .loaded, .switch singleIndexFile].map .index)
      (switched.put () ⟨encoded, .indexed query false⟩) :=
    run_index _ (s := waiting.put () ⟨encoded, .indexed query false⟩) rfl (by simp) runs_switch
  -- the request goes on with the old index
  have getParam : Step DoubleLib.integral (switched.put () ⟨encoded, .indexed query false⟩)
      (.worker () .getParam) (switched.put () ⟨encoded, .referenced query false false⟩) :=
    step_of_works _ second nofun (.getParam encoded query false)
  have old : view = mergeMemory := by
    have buffer : switchedIndex.slot.buffer false = Isolation.mergeOnly [97] := by
      simp [switchedIndex, Slot.switch, Slot.setInactive, mergeMemory, SharedMemory.ofVersions]
    simp only [view, SharedMemory.through, System.memory, switched, buffer]
    rfl
  have found : view.getIndex.getUvMergeBitmap = some (Index.singleMerge [97]) := by
    rw [old, mergeMemory, Isolation.mergeOnly_eq]
    rfl
  have bounded : InBounds Targeting.computeBufferSize view query := by
    rw [old]
    exact inBounds_mergeMemory _
  have merge : Step DoubleLib.integral (switched.put () ⟨encoded, .referenced query false false⟩)
      (.worker () .merge) (switched.put () ⟨rated, .looping query false false [[]]⟩) :=
    step_of_works _ second nofun (.merge encoded query false false _ found)
  have pv : Step DoubleLib.integral (switched.put () ⟨rated, .looping query false false [[]]⟩)
      (.worker () .pv) (switched.put () ⟨halfway, .halfway query false false [] []⟩) :=
    step_of_works _ second nofun (.pv rated query false false [] [] heap)
  have uv : Step DoubleLib.integral (switched.put () ⟨halfway, .halfway query false false [] []⟩)
      (.worker () .uv) (switched.put () ⟨looped, .looping query false false []⟩) :=
    step_of_works _ second nofun (.uv halfway query false false [] [] heap)
  have answer : Step DoubleLib.integral (switched.put () ⟨looped, .looping query false false []⟩)
      (.worker () (.answer query last.getJsonResult)) (switched.put () ⟨last, .idle⟩) :=
    step_of_works _ second nofun (.answer looped query false false)
  have clear : RunWith (Step DoubleLib.integral) Orderly (switched.put () ⟨last, .idle⟩)
      ([.clear, .cleared].map .index) _ :=
    run_index _ (s := switched.put () ⟨last, .idle⟩) rfl (by simp)
      (.cons ⟨.clear switchedIndex rfl, fun _ _ => by simp [System.indexRefs, Stage.indexRef]⟩
        (.of_step ⟨.cleared _ rfl, nofun⟩))
  have old : RunWith (Step DoubleLib.integral) Orderly
      (switched.put () ⟨encoded, .indexed query false⟩)
      [.worker () .getParam, .worker () .merge, .worker () .pv, .worker () .uv,
        .worker () (.answer query last.getJsonResult)] (switched.put () ⟨last, .idle⟩) :=
    .cons ⟨getParam, trivial⟩ <| .cons ⟨merge, bounded⟩ <| .cons ⟨pv, bounded⟩ <|
      .cons ⟨uv, bounded⟩ <| .of_step ⟨answer, bounded⟩
  have begins : RunWith (Step DoubleLib.integral) Orderly waiting
      [.worker () (.start query), .worker () .getIndex]
      (waiting.put () ⟨encoded, .indexed query false⟩) :=
    .cons ⟨start, trivial⟩ (.of_step ⟨getIndex, trivial⟩)
  exact ⟨_, _, ((begins.append switch).append old).append clear⟩

theorem answers_acrossSwitch :
    ∃ index param, ∃ acc : Accumulators ℚ, ∀ heap,
      report DoubleLib.integral (.ofVersions index param .empty) (RequestHandler.singleQuery [])
        heap = some acc := by
  obtain ⟨text, t, run⟩ := run_acrossSwitch fun _ _ => 1
  have present : mergeMemory.getIndex.getUvMergeBitmap.isSome := by
    rw [mergeMemory, SharedMemory.ofVersions, Isolation.mergeOnly_eq]
    rfl
  obtain ⟨-, answers⟩ := answers_of_orderly _ mergeMemory (fun _ => RequestHandler.blankHandler)
    present _ t run
  obtain ⟨index, param, acc, -, -, reported, -⟩ := answers () (RequestHandler.singleQuery []) text
    (by simp [acrossSwitch])
  exact ⟨index, param, acc, reported⟩

end Single

end LiveService

end FlowRetrieval
