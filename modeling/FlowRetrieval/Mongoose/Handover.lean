/-
# Handing sockets over to the workers

Whatever the threads do in whatever order, a socket that was accepted is in one place: in the
hand of the master, in the queue, with one worker, closed, or, once the server has been told to
stop, given up.

## Main results

* `SocketQueue.Invariant.step` — what every step of every thread keeps
* `SocketQueue.fifo_of_run` — sockets are taken in the order of their acceptance
* `SocketQueue.conserved_of_run` — no socket is lost, and none is served twice
-/
import Mathlib.Tactic.Abel
import FlowRetrieval.CS.Census
import FlowRetrieval.Mongoose.SocketQueue

namespace FlowRetrieval

open CS CS.Transition

namespace SocketQueue

variable {W Socket : Type}

section Frame

variable {ctx : Context W Socket}

@[simp]
theorem phase_setPhase [DecidableEq W] (ctx : Context W Socket) (w v : W) (phase : Phase) :
    ((ctx.setPhase w phase).workers v).phase =
      if v = w then phase else (ctx.workers v).phase := by
  rw [Context.setPhase]
  dsimp only
  split
  · rename_i same
    rw [same, Function.update_self]
  · rename_i other
    rw [Function.update_of_ne other]

/-- The broadcast wakes the workers that sleep. -/
theorem phase_broadcast (ctx : Context W Socket) (w : W) :
    (ctx.broadcast.workers w).phase =
      if (ctx.workers w).phase = .sleeping then .woken else (ctx.workers w).phase := by
  rw [Context.broadcast]
  dsimp only
  split <;> rfl

/-- The signal to the workers changes nothing but a phase. -/
theorem signalWorker_frame [DecidableEq W] (ctx : Context W Socket) (signalled : Option W) :
    (ctx.signalWorker signalled).ring = ctx.ring ∧
      (ctx.signalWorker signalled).stopFlag = ctx.stopFlag := by
  cases signalled <;> exact ⟨rfl, rfl⟩

theorem contents_signalWorker [DecidableEq W] (ctx : Context W Socket) (signalled : Option W) :
    (ctx.signalWorker signalled).contents = ctx.contents :=
  congrArg RingBuffer.contents (signalWorker_frame ctx signalled).1

/-- The signal to the master changes nothing but its phase, and the master sleeps no more. -/
theorem signalMaster_frame (ctx : Context W Socket) :
    ctx.signalMaster.ring = ctx.ring ∧ ctx.signalMaster.workers = ctx.workers ∧
      ctx.signalMaster.stopFlag = ctx.stopFlag ∧ ∀ so, ctx.signalMaster.master ≠ .sleeping so := by
  rw [Context.signalMaster]
  split
  · exact ⟨rfl, rfl, rfl, nofun⟩
  · rename_i other
    exact ⟨rfl, rfl, rfl, other⟩

theorem signalMaster_of_ne (awake : ∀ so, ctx.master ≠ .sleeping so) : ctx.signalMaster = ctx := by
  rw [Context.signalMaster]
  split
  · rename_i so sleeps
    exact absurd sleeps (awake so)
  · rfl

end Frame

section Count

variable [Fintype W]

/-- Whether a worker has been signalled, as a number. -/
def Worker.alertness (worker : Worker Socket) : ℕ := if worker.phase = .woken then 1 else 0

/-- How many workers have been signalled and do not hold the mutex yet. -/
def Context.alert (ctx : Context W Socket) : ℕ := ∑ w, (ctx.workers w).alertness

theorem alert_setPhase [DecidableEq W] (ctx : Context W Socket) (w : W) (phase : Phase) :
    (ctx.setPhase w phase).alert + (ctx.workers w).alertness =
      ctx.alert + Worker.alertness ⟨phase, (ctx.workers w).client⟩ :=
  Census.sum_update Worker.alertness ctx.workers w _

end Count

section Invariant

variable [Fintype W]

/-- What holds in every reachable state. A worker sleeps only if enough others are about to
look at the queue, and the master only if the queue is full. -/
structure Invariant (ctx : Context W Socket) : Prop where
  wellFormed : ctx.ring.WellFormed
  small : ctx.sqTail ≤ mgsqlen
  exclusive : ∀ w v, (ctx.workers w).phase = .dozing → (ctx.workers v).phase = .dozing → w = v
  empty : ∀ w, (ctx.workers w).phase = .dozing → ctx.sqHead = ctx.sqTail
  full : ∀ so, ctx.master = .dozing so ∨ ctx.master = .sleeping so →
    ctx.sqHead = ctx.sqTail + mgsqlen
  alert : ∀ w, (ctx.workers w).phase = .sleeping → ctx.sqHead - ctx.sqTail ≤ ctx.alert
  running : ctx.stopFlag = 0 →
    (∀ w, (ctx.workers w).phase ≠ .exited) ∧ ctx.master ≠ .joining ∧ ctx.master ≠ .done
  emptyHanded : ∀ w, (ctx.workers w).phase = .returning false → ctx.stopFlag ≠ 0

theorem invariant_initial (zero : Socket) : Invariant (Context.initial W zero) where
  wellFormed := ⟨le_rfl, Nat.zero_le _⟩
  small := Nat.zero_le _
  exclusive := nofun
  empty := nofun
  full := nofun
  alert := nofun
  running _ := ⟨nofun, nofun, nofun⟩
  emptyHanded := nofun

variable {ctx : Context W Socket}

/-- What is left of the queue behind the loop of `consume_socket`. -/
theorem take_length (invariant : Invariant ctx) :
    ctx.take.2.ring.WellFormed ∧ ctx.take.2.sqTail ≤ mgsqlen ∧
      ctx.take.2.sqHead - ctx.take.2.sqTail = ctx.sqHead - ctx.sqTail - 1 := by
  by_cases nonempty : ctx.sqTail < ctx.sqHead
  · obtain ⟨so, -, contents, wellFormed, small⟩ := take_of_lt invariant.wellFormed nonempty
    have length := congrArg List.length contents
    rw [List.length_cons, Context.contents, Context.contents, RingBuffer.length_contents,
      RingBuffer.length_contents] at length
    change ctx.sqHead - ctx.sqTail = ctx.take.2.sqHead - ctx.take.2.sqTail + 1 at length
    exact ⟨wellFormed, small, by omega⟩
  · rw [take_of_le (Nat.le_of_not_lt nonempty)]
    exact ⟨invariant.wellFormed, invariant.small, by dsimp only; omega⟩

/-- Before `mg_stop`, a worker that leaves the loop of `consume_socket` takes a socket. -/
theorem take_of_running (invariant : Invariant ctx) (running : ctx.stopFlag = 0)
    (goes : ¬ ctx.ConsumerWaits) :
    ∃ so, ctx.take.1 = some so := by
  have ordered := invariant.wellFormed.ordered
  change ctx.sqTail ≤ ctx.sqHead at ordered
  have different : ctx.sqHead ≠ ctx.sqTail := fun same => goes ⟨same, running⟩
  obtain ⟨so, got, -⟩ := take_of_lt invariant.wellFormed (by omega)
  exact ⟨so, got⟩

/-- A step of the master that leaves the queue alone. It waits only if the queue is full, and
leaves its loop only if the server stops. -/
theorem Invariant.setMaster (invariant : Invariant ctx) {master : Master Socket}
    (full : ∀ so, master = .dozing so ∨ master = .sleeping so →
      ctx.sqHead = ctx.sqTail + mgsqlen)
    (going : ctx.stopFlag = 0 → master ≠ .joining ∧ master ≠ .done) :
    Invariant { ctx with master := master } :=
  { invariant with
    full := full
    running := fun running => ⟨(invariant.running running).1, going running⟩ }

variable [DecidableEq W]

/-- `produce_socket`, behind its loop. -/
theorem Invariant.produce (invariant : Invariant ctx) (so : Socket) {signalled : Option W}
    (free : ctx.MutexFree) (signals : ctx.Signals signalled)
    (serving : ctx.stopFlag = 0 → ∀ w, (ctx.workers w).phase ≠ .exited) :
    Invariant { (ctx.put so).signalWorker signalled with master := .polling } := by
  obtain ⟨-, workers, stopFlag, tail⟩ := put_frame ctx so
  obtain ⟨ring, stopped⟩ := signalWorker_frame (ctx.put so) signalled
  have counters : ((ctx.put so).signalWorker signalled).sqHead = (ctx.put so).sqHead ∧
      ((ctx.put so).signalWorker signalled).sqTail = ctx.sqTail := by
    cases signalled <;> exact ⟨rfl, tail⟩
  have head : (ctx.put so).sqHead ≤ ctx.sqHead + 1 := by
    rw [Context.put]
    split
    · exact le_rfl
    · exact Nat.le_succ _
  -- the signal wakes a worker that slept, and leaves the others where they are
  have phases (w : W) : (((ctx.put so).signalWorker signalled).workers w).phase =
      if signalled = some w then .woken else (ctx.workers w).phase := by
    cases signalled with
    | none => rw [if_neg (Option.some_ne_none w).symm, ← workers]; rfl
    | some v =>
      rw [Context.signalWorker, phase_setPhase, workers]
      by_cases same : w = v
      · rw [if_pos same, if_pos (congrArg some same.symm)]
      · rw [if_neg same, if_neg fun other => same (Option.some.inj other).symm]
  have awake (w : W) : (((ctx.put so).signalWorker signalled).workers w).phase ≠ .dozing := by
    rw [phases]
    split
    · simp
    · exact free.1 w
  refine ⟨?_, ?_, fun w _ dozes _ => absurd dozes (awake w), fun w dozes => absurd dozes (awake w),
    by simp, fun w sleeps => ?_, fun running => ⟨fun w => ?_, by simp, by simp⟩,
    fun w back => ?_⟩
  · change ((ctx.put so).signalWorker signalled).ring.WellFormed
    rw [ring, Context.put]
    split
    · rename_i room
      have queued := (put_of_hasRoom invariant.wellFormed room so).1
      rwa [Context.put, if_pos room] at queued
    · exact invariant.wellFormed
  · exact counters.2.le.trans invariant.small
  · change (((ctx.put so).signalWorker signalled).workers w).phase = .sleeping at sleeps
    change ((ctx.put so).signalWorker signalled).sqHead -
      ((ctx.put so).signalWorker signalled).sqTail ≤ ((ctx.put so).signalWorker signalled).alert
    rw [phases] at sleeps
    cases signalled with
    | none =>
      rw [if_neg (Option.some_ne_none w).symm] at sleeps
      exact absurd sleeps (signals w)
    | some v =>
      split at sleeps
      · cases sleeps
      · have more := alert_setPhase (ctx.put so) v .woken
        have before : (ctx.put so).alert = ctx.alert := by
          rw [Context.alert, workers, Context.alert]
        have slept : ((ctx.put so).workers v).alertness = 0 := by
          rw [workers, Worker.alertness, if_neg]
          rw [show (ctx.workers v).phase = .sleeping from signals]
          simp
        have enough := invariant.alert w sleeps
        rw [slept, before, Worker.alertness, if_pos rfl] at more
        rw [counters.1, counters.2, Context.signalWorker]
        omega
  · change (((ctx.put so).signalWorker signalled).workers w).phase ≠ .exited
    rw [phases]
    split
    · simp
    · exact serving (by rw [← stopFlag, ← stopped]; exact running) w
  · change (((ctx.put so).signalWorker signalled).workers w).phase = .returning false at back
    change ((ctx.put so).signalWorker signalled).stopFlag ≠ 0
    rw [phases] at back
    rw [stopped, stopFlag]
    split at back
    · cases back
    · exact invariant.emptyHanded w back

/-- `consume_socket`, behind its loop. -/
theorem Invariant.consume (invariant : Invariant ctx) (w : W)
    (free : ctx.MutexFree) (goes : ¬ ctx.ConsumerWaits) (client : Socket) :
    Invariant { ctx.take.2.signalMaster with
      workers := Function.update ctx.workers w ⟨.returning ctx.take.1.isSome, client⟩ } := by
  obtain ⟨master, -, stopFlag⟩ := take_frame ctx
  obtain ⟨ring, -, stopped, awake⟩ := signalMaster_frame ctx.take.2
  obtain ⟨wellFormed, small, length⟩ := take_length invariant
  have head : ctx.take.2.signalMaster.sqHead = ctx.take.2.sqHead := congrArg RingBuffer.head ring
  have tail : ctx.take.2.signalMaster.sqTail = ctx.take.2.sqTail := congrArg RingBuffer.tail ring
  have phases (v : W) : (Function.update ctx.workers w
      ⟨.returning ctx.take.1.isSome, client⟩ v).phase =
        if v = w then .returning ctx.take.1.isSome else (ctx.workers v).phase := by
    by_cases same : v = w
    · rw [same, Function.update_self, if_pos rfl]
    · rw [Function.update_of_ne same, if_neg same]
  have undozing (v : W) : (Function.update ctx.workers w
      ⟨.returning ctx.take.1.isSome, client⟩ v).phase ≠ .dozing := by
    rw [phases]
    split
    · nofun
    · exact free.1 v
  have masters : ∀ so, ctx.take.2.signalMaster.master ≠ .dozing so := by
    intro so dozes
    rw [Context.signalMaster] at dozes
    split at dozes
    · cases dozes
    · exact free.2 so (master.symm.trans dozes)
  refine ⟨?_, ?_, fun v _ dozes _ => absurd dozes (undozing v),
    fun v dozes => absurd dozes (undozing v), fun so waits => ?_, fun v sleeps => ?_,
    fun running => ?_, fun v back => ?_⟩
  · change ctx.take.2.signalMaster.ring.WellFormed
    rwa [ring]
  · exact tail.le.trans small
  · exact absurd waits (not_or.mpr ⟨masters so, awake so⟩)
  · change (Function.update ctx.workers w _ v).phase = .sleeping at sleeps
    rw [phases] at sleeps
    split at sleeps
    · cases sleeps
    · have enough := invariant.alert v sleeps
      have fewer := Census.sum_update Worker.alertness ctx.workers w
        ⟨.returning ctx.take.1.isSome, client⟩
      -- one signalled worker fewer, but also one socket fewer
      have one : (ctx.workers w).alertness ≤ 1 := by
        rw [Worker.alertness]
        split <;> omega
      change ctx.take.2.signalMaster.sqHead - ctx.take.2.signalMaster.sqTail ≤
        ∑ v, Worker.alertness (Function.update ctx.workers w
          ⟨.returning ctx.take.1.isSome, client⟩ v)
      change ctx.sqHead - ctx.sqTail ≤ ∑ v, (ctx.workers v).alertness at enough
      omega
  · have going : ctx.stopFlag = 0 := stopFlag.symm.trans (stopped.symm.trans running)
    obtain ⟨inside, joining, done⟩ := invariant.running going
    refine ⟨fun v => ?_, ?_, ?_⟩
    · change (Function.update ctx.workers w _ v).phase ≠ .exited
      rw [phases]
      split
      · nofun
      · exact inside v
    all_goals
      change ctx.take.2.signalMaster.master ≠ _
      rw [Context.signalMaster]
      split
      · nofun
      · rw [master]
        assumption
  · change (Function.update ctx.workers w _ v).phase = .returning false at back
    change ctx.take.2.signalMaster.stopFlag ≠ 0
    rw [phases] at back
    rw [stopped, stopFlag]
    split at back
    · intro running
      obtain ⟨so, got⟩ := take_of_running invariant running goes
      rw [got] at back
      cases back
    · exact invariant.emptyHanded v back

/-- A step of a worker that leaves the queue alone. It gives up a signal only if the queue is
empty, and so it is when the worker goes to sleep. -/
theorem Invariant.setPhase (invariant : Invariant ctx) {w : W} {phase : Phase}
    (signal : (ctx.workers w).phase = .woken → ctx.sqHead = ctx.sqTail)
    (dozing : phase = .dozing →
      ctx.sqHead = ctx.sqTail ∧ ∀ v, (ctx.workers v).phase ≠ .dozing)
    (sleeping : phase = .sleeping → ctx.sqHead = ctx.sqTail)
    (exited : phase = .exited → ctx.stopFlag ≠ 0) (forward : ∀ got, phase ≠ .returning got) :
    Invariant (ctx.setPhase w phase) := by
  have keeps {v : W} {other : Phase} (is : ((ctx.setPhase w phase).workers v).phase = other) :
      v = w ∧ phase = other ∨ (ctx.workers v).phase = other := by
    rw [phase_setPhase] at is
    split at is
    · exact .inl ⟨‹_›, is⟩
    · exact .inr is
  refine ⟨invariant.wellFormed, invariant.small, fun v u dozes dozes' => ?_, fun v dozes => ?_,
    invariant.full, fun v sleeps => ?_, fun running => ⟨fun v exits => ?_,
      (invariant.running running).2⟩, fun v back => ?_⟩
  · rcases keeps dozes, keeps dozes' with ⟨⟨rfl, is⟩ | old, ⟨rfl, is'⟩ | old'⟩
    · rfl
    · exact absurd old' ((dozing is).2 u)
    · exact absurd old ((dozing is').2 v)
    · exact invariant.exclusive v u old old'
  · rcases keeps dozes with ⟨-, is⟩ | old
    · exact (dozing is).1
    · exact invariant.empty v old
  · change ctx.sqHead - ctx.sqTail ≤ _
    by_cases empty : ctx.sqHead = ctx.sqTail
    · omega
    · rcases keeps sleeps with ⟨-, is⟩ | old
      · exact absurd (sleeping is) empty
      · have enough := invariant.alert v old
        have more := alert_setPhase ctx w phase
        rw [show (ctx.workers w).alertness = 0 from if_neg (mt signal empty)] at more
        omega
  · rcases keeps exits with ⟨-, is⟩ | old
    · exact exited is running
    · exact (invariant.running running).1 v old
  · rcases keeps back with ⟨-, is⟩ | old
    · exact absurd is (forward false)
    · exact invariant.emptyHanded v old

/-- Every step of every thread keeps the invariant. -/
theorem Invariant.step {event : Event W Socket} {next : Context W Socket}
    (invariant : Invariant ctx) (step : Step ctx event next) : Invariant next := by
  cases step with
  | polls polling => exact invariant.setMaster nofun fun _ => ⟨nofun, nofun⟩
  | accept so accepting => exact invariant.setMaster nofun fun _ => ⟨nofun, nofun⟩
  | acceptsNone accepting => exact invariant.setMaster nofun fun _ => ⟨nofun, nofun⟩
  | produce so signalled offers free goes signals =>
    exact invariant.produce so free signals fun running => (invariant.running running).1
  | masterDozes so offers free waits =>
    have ordered := invariant.wellFormed.ordered
    have bounded := invariant.wellFormed.bounded
    have none : ¬ ctx.sqHead - ctx.sqTail < mgsqlen := waits.2
    change ctx.sqTail ≤ ctx.sqHead at ordered
    change ctx.sqHead ≤ ctx.sqTail + mgsqlen at bounded
    exact invariant.setMaster (fun _ _ => by omega) fun _ => ⟨nofun, nofun⟩
  | masterSleeps so dozes =>
    exact invariant.setMaster (fun _ _ => invariant.full so (.inl dozes)) fun _ => ⟨nofun, nofun⟩
  | masterWakes so sleeps => exact invariant.setMaster nofun fun _ => ⟨nofun, nofun⟩
  | consume w calls free goes => exact invariant.consume w free goes _
  | returns w got back =>
    by_cases running : ctx.stopFlag = 0
    · rw [if_pos running]
      exact invariant.setPhase (by rw [back]; nofun) nofun nofun nofun nofun
    · rw [if_neg running]
      exact invariant.setPhase (by rw [back]; nofun) nofun nofun (fun _ => running) nofun
  | dozes w calls free waits =>
    exact invariant.setPhase (fun _ => waits.1) (fun _ => ⟨waits.1, free.1⟩) nofun nofun nofun
  | sleeps w dozes =>
    exact invariant.setPhase (by rw [dozes]; nofun) nofun (fun _ => invariant.empty w dozes) nofun
      nofun
  | wakes w sleeps =>
    exact invariant.setPhase (by rw [sleeps]; nofun) nofun nofun nofun nofun
  | close w serves =>
    exact invariant.setPhase (by rw [serves]; nofun) nofun nofun nofun nofun
  | stop running => exact { invariant with running := nofun, emptyHanded := nofun }
  | quit polling stopped =>
    have keeps {v : W} (dozes : (ctx.broadcast.workers v).phase = .dozing) :
        (ctx.workers v).phase = .dozing := by
      rw [phase_broadcast] at dozes
      split at dozes
      · cases dozes
      · exact dozes
    refine ⟨invariant.wellFormed, invariant.small,
      fun v u dozes dozes' => invariant.exclusive v u (keeps dozes) (keeps dozes'),
      fun v dozes => invariant.empty v (keeps dozes), nofun, fun v sleeps => ?_,
      fun running => absurd running stopped, fun _ _ => stopped⟩
    change (ctx.broadcast.workers v).phase = .sleeping at sleeps
    rw [phase_broadcast] at sleeps
    split at sleeps
    · cases sleeps
    · contradiction
  | join joining exited =>
    exact { invariant with
      full := nofun
      running := nofun
      emptyHanded := nofun }

end Invariant

section Balance

/-- The socket that the master accepts. -/
def Event.accepted : Event W Socket → List Socket
  | .accept so => [so]
  | _ => []

/-- The socket that a worker takes from the queue. -/
def Event.taken : Event W Socket → List Socket
  | .consume _ got => got.toList
  | _ => []

/-- The socket that a worker closes. -/
def Event.closed : Event W Socket → List Socket
  | .close _ so => [so]
  | _ => []

/-- A socket that is neither queued nor served, because the server stops. -/
def Event.givenUp : Event W Socket → List Socket
  | .produce so false _ => [so]
  | .returns _ got false => got.toList
  | _ => []

/-- The socket in the hand of the master. -/
def Master.pending : Master Socket → List Socket
  | .offering so | .dozing so | .sleeping so | .woken so => [so]
  | .polling | .accepting | .joining | .done => []

/-- Whether a worker has a socket. -/
def Phase.busy : Phase → Bool
  | .returning got => got
  | .serving => true
  | .ready | .dozing | .sleeping | .woken | .exited => false

/-- The socket that a worker has. -/
def Worker.serves (worker : Worker Socket) : Multiset Socket :=
  if worker.phase.busy then {worker.client} else 0

/-- The sockets that the workers have. -/
def Context.served [Fintype W] (ctx : Context W Socket) : Multiset Socket :=
  ∑ w, (ctx.workers w).serves

variable {ctx next : Context W Socket} {event : Event W Socket}

theorem pending_signalMaster (ctx : Context W Socket) :
    ctx.signalMaster.master.pending = ctx.master.pending := by
  rw [Context.signalMaster]
  split
  · rename_i so sleeps
    rw [sleeps]
    rfl
  · rfl

theorem pending_of_offers {so : Socket}
    (offers : ctx.master = .offering so ∨ ctx.master = .woken so) : ctx.master.pending = [so] := by
  rcases offers with is | is <;> rw [is] <;> rfl

theorem contents_signalMaster (ctx : Context W Socket) :
    ctx.signalMaster.contents = ctx.contents :=
  congrArg RingBuffer.contents (signalMaster_frame ctx).1

variable [Fintype W]

theorem contents_take (invariant : Invariant ctx) :
    ctx.contents = ctx.take.1.toList ++ ctx.take.2.contents := by
  by_cases nonempty : ctx.sqTail < ctx.sqHead
  · obtain ⟨so, got, contents, -⟩ := take_of_lt invariant.wellFormed nonempty
    rw [got, contents]
    rfl
  · rw [take_of_le (Nat.le_of_not_lt nonempty)]
    rfl

theorem served_broadcast (ctx : Context W Socket) : ctx.broadcast.served = ctx.served := by
  refine Finset.sum_congr rfl fun w _ => ?_
  rw [Context.broadcast]
  dsimp only
  split
  · rename_i sleeps
    rw [Worker.serves, if_neg nofun, Worker.serves, if_neg (by rw [sleeps]; nofun)]
  · rfl

/-- The sockets that have been accepted and are still somewhere. -/
def Context.held (ctx : Context W Socket) : Multiset Socket :=
  ctx.served + (ctx.contents ++ ctx.master.pending : List Socket)

theorem held_initial (zero : Socket) : (Context.initial W zero).held = 0 := by
  have idle : (Context.initial W zero).served = 0 := Finset.sum_eq_zero fun _ _ => if_neg nofun
  rw [Context.held, idle]
  rfl

/-- A step that moves no socket. -/
private theorem held_of_eq (same : next.held = ctx.held) :
    ctx.held + (([] : List Socket) : Multiset Socket) =
      (([] : List Socket) : Multiset Socket) + next.held := by
  rw [same, Multiset.coe_nil, add_zero, zero_add]

/-- The master keeps what it has in its hand. -/
private theorem held_master {master : Master Socket}
    (same : master.pending = ctx.master.pending) :
    ({ ctx with master := master } : Context W Socket).held = ctx.held :=
  congrArg (fun pending => ctx.served + (ctx.contents ++ pending : List Socket)) same

variable [DecidableEq W]

/-- Before `mg_stop`, a step keeps the order of the sockets: they join the line behind the one
in the hand of the master, and leave it at the front of the queue. -/
theorem Step.queue (step : Step ctx event next) (invariant : Invariant ctx)
    (running : ctx.stopFlag = 0) :
    (ctx.contents ++ ctx.master.pending) ++ event.accepted =
      event.taken ++ (next.contents ++ next.master.pending) := by
  cases step with
  | polls polling =>
    rw [polling]
    exact List.append_nil _
  | accept so accepting =>
    rw [accepting]
    exact List.append_assoc ..
  | acceptsNone accepting =>
    rw [accepting]
    exact List.append_nil _
  | produce so signalled offers free goes signals =>
    have room : ctx.HasRoom := by
      by_contra full
      exact goes ⟨running, full⟩
    obtain ⟨-, contents, -⟩ := put_of_hasRoom invariant.wellFormed room so
    rw [pending_of_offers offers, ← contents, ← contents_signalWorker _ signalled]
    rfl
  | masterDozes so offers =>
    rw [pending_of_offers offers]
    exact List.append_nil _
  | masterSleeps so is =>
    rw [is]
    exact List.append_nil _
  | masterWakes so is =>
    rw [is]
    exact List.append_nil _
  | consume w calls free goes =>
    change (ctx.contents ++ ctx.master.pending) ++ [] = ctx.take.1.toList ++
      (ctx.take.2.signalMaster.contents ++ ctx.take.2.signalMaster.master.pending)
    rw [List.append_nil, contents_take invariant, contents_signalMaster, pending_signalMaster,
      (take_frame ctx).1, List.append_assoc]
  | returns w => exact List.append_nil _
  | dozes w => exact List.append_nil _
  | sleeps w => exact List.append_nil _
  | wakes w => exact List.append_nil _
  | close w => exact List.append_nil _
  | stop => exact List.append_nil _
  | quit polling stopped => exact absurd running stopped
  | join joining => exact absurd joining (invariant.running running).2.1

theorem served_setPhase (ctx : Context W Socket) (w : W) (phase : Phase) :
    (ctx.setPhase w phase).served + (ctx.workers w).serves =
      ctx.served + Worker.serves ⟨phase, (ctx.workers w).client⟩ :=
  Census.sum_update Worker.serves ctx.workers w _

/-- A worker that had no socket. -/
theorem served_update {w : W} (idle : (ctx.workers w).phase.busy = false)
    (worker : Worker Socket) :
    (∑ v, Worker.serves (Function.update ctx.workers w worker v)) = ctx.served + worker.serves := by
  have balance := Census.sum_update Worker.serves ctx.workers w worker
  rwa [show (ctx.workers w).serves = 0 from if_neg (Bool.eq_false_iff.mp idle), add_zero]
    at balance

/-- A worker that neither gets a socket nor gives one away. -/
theorem served_setPhase_of_eq {w : W} {phase : Phase}
    (same : phase.busy = (ctx.workers w).phase.busy) :
    (ctx.setPhase w phase).served = ctx.served := by
  have balance := served_setPhase ctx w phase
  rw [Worker.serves, Worker.serves, same] at balance
  exact add_right_cancel balance

/-- A worker that gives its socket away. -/
theorem served_setPhase_idle {w : W} {phase : Phase} (idle : phase.busy = false) :
    ctx.served = (ctx.workers w).serves + (ctx.setPhase w phase).served := by
  have balance := served_setPhase ctx w phase
  rw [show Worker.serves ⟨phase, (ctx.workers w).client⟩ = 0 from
    if_neg (Bool.eq_false_iff.mp idle), add_zero] at balance
  rw [← balance, add_comm]

/-- The signal of `produce_socket` goes to a worker that sleeps. -/
theorem served_signalWorker (so : Socket) {signalled : Option W}
    (signals : ctx.Signals signalled) :
    ((ctx.put so).signalWorker signalled).served = ctx.served := by
  have workers := (put_frame ctx so).2.1
  have put : (ctx.put so).served = ctx.served := by
    rw [Context.served, workers, Context.served]
  cases signalled with
  | none => exact put
  | some w =>
    have asleep : (ctx.workers w).phase = .sleeping := signals
    have same : Phase.woken.busy = ((ctx.put so).workers w).phase.busy := by
      rw [workers, asleep]
      rfl
    exact (served_setPhase_of_eq same).trans put

/-- No step loses a socket or makes another of it. -/
theorem Step.held (step : Step ctx event next) (invariant : Invariant ctx) :
    ctx.held + (event.accepted : Multiset Socket) =
      (event.closed ++ event.givenUp : List Socket) + next.held := by
  cases step with
  | polls polling => exact held_of_eq (held_master (by rw [polling]; rfl))
  | accept so accepting =>
    change ctx.served + (ctx.contents ++ ctx.master.pending : List Socket) + ([so] : List Socket) =
      (0 : Multiset Socket) + (ctx.served + (ctx.contents ++ [so] : List Socket))
    rw [accepting, zero_add, add_assoc, Multiset.coe_add, Master.pending, List.append_nil]
  | acceptsNone accepting => exact held_of_eq (held_master (by rw [accepting]; rfl))
  | produce so signalled offers free goes signals =>
    have same := served_signalWorker so signals
    have contents := contents_signalWorker (ctx.put so) signalled
    change ctx.served + (ctx.contents ++ ctx.master.pending : List Socket) + (0 : Multiset Socket) =
      ([] ++ (Event.produce so (decide ctx.HasRoom) signalled).givenUp : List Socket) +
        (((ctx.put so).signalWorker signalled).served +
          (((ctx.put so).signalWorker signalled).contents ++ [] : List Socket))
    rw [same, contents, pending_of_offers offers, add_zero, List.nil_append, List.append_nil]
    by_cases room : ctx.HasRoom
    · obtain ⟨-, queued, -⟩ := put_of_hasRoom invariant.wellFormed room so
      rw [decide_eq_true room, queued, Event.givenUp, Multiset.coe_nil, zero_add]
      all_goals simp
    · -- the queue is full, and `produce_socket` forgets the socket
      rw [decide_eq_false room, Context.put, if_neg room, Event.givenUp, ← Multiset.coe_add]
      abel
  | masterDozes so offers => exact held_of_eq (held_master (pending_of_offers offers).symm)
  | masterSleeps so is => exact held_of_eq (held_master (by rw [is]; rfl))
  | masterWakes so is => exact held_of_eq (held_master (by rw [is]; rfl))
  | consume w calls free goes =>
    have idle : (ctx.workers w).phase.busy = false := by
      rcases calls with is | is <;> rw [is] <;> rfl
    have serves : Worker.serves ⟨.returning ctx.take.1.isSome,
        ctx.take.1.getD (ctx.workers w).client⟩ = (ctx.take.1.toList : Multiset Socket) := by
      cases ctx.take.1 <;> rfl
    change ctx.served + (ctx.contents ++ ctx.master.pending : List Socket) + (0 : Multiset Socket) =
      (0 : Multiset Socket) + ((∑ v, Worker.serves (Function.update ctx.workers w _ v)) +
          (ctx.take.2.signalMaster.contents ++ ctx.take.2.signalMaster.master.pending :
            List Socket))
    rw [served_update idle, serves, contents_take invariant, contents_signalMaster,
      pending_signalMaster, (take_frame ctx).1, ← Multiset.coe_add, ← Multiset.coe_add,
      ← Multiset.coe_add]
    abel
  | returns w got back =>
    by_cases running : ctx.stopFlag = 0
    · -- a worker has got a socket if the server has not been told to stop
      have some : got = true := by
        cases got with
        | true => rfl
        | false => exact absurd running (invariant.emptyHanded w back)
      rw [decide_eq_true running, if_pos running]
      refine held_of_eq (congrArg (· + _) (served_setPhase_of_eq ?_))
      rw [back, some]
      rfl
    · have serves : (ctx.workers w).serves =
          ((if got then some (ctx.workers w).client else none : Option Socket).toList :
            Multiset Socket) := by
        rw [Worker.serves, back]
        cases got <;> rfl
      rw [decide_eq_false running, if_neg running]
      change ctx.served + _ + (0 : Multiset Socket) = _ + ((ctx.setPhase w .exited).served + _)
      rw [served_setPhase_idle (show Phase.exited.busy = false from rfl), serves, add_zero,
        add_assoc]
      rfl
  | dozes w calls =>
    refine held_of_eq (congrArg (· + _) (served_setPhase_of_eq ?_))
    rcases calls with is | is <;> rw [is] <;> rfl
  | sleeps w is =>
    exact held_of_eq (congrArg (· + _) (served_setPhase_of_eq (by rw [is]; rfl)))
  | wakes w is =>
    exact held_of_eq (congrArg (· + _) (served_setPhase_of_eq (by rw [is]; rfl)))
  | close w is =>
    have client : (ctx.workers w).serves = {(ctx.workers w).client} := if_pos (by rw [is]; rfl)
    change ctx.served + _ + (0 : Multiset Socket) =
      {(ctx.workers w).client} + ((ctx.setPhase w .ready).served + _)
    rw [served_setPhase_idle (show Phase.ready.busy = false from rfl), client, add_zero, add_assoc]
    rfl
  | stop => exact held_of_eq rfl
  | quit polling stopped =>
    refine held_of_eq ?_
    rw [Context.held, Context.held, polling]
    exact congrArg (· + _) (served_broadcast ctx)
  | join joining => exact held_of_eq (held_master (by rw [joining]; rfl))

end Balance

section Run

variable {ctx next : Context W Socket} {event : Event W Socket}

/-- Nothing is given up before `mg_stop`. -/
theorem Step.givenUp_eq [DecidableEq W] (step : Step ctx event next) (running : ctx.stopFlag = 0) :
    event.givenUp = [] := by
  cases step with
  | produce so signalled offers free goes =>
    have room : ctx.HasRoom := by
      by_contra full
      exact goes ⟨running, full⟩
    rw [decide_eq_true room]
    rfl
  | returns =>
    rw [decide_eq_true running]
    rfl
  | _ => rfl

variable [Fintype W]

/-- A context in the middle of its work. -/
structure Working (ctx : Context W Socket) : Prop where
  invariant : Invariant ctx
  running : ctx.stopFlag = 0

theorem working_initial (zero : Socket) : Working (Context.initial W zero) :=
  ⟨invariant_initial zero, rfl⟩

variable [DecidableEq W]

/-- Only `mg_stop` and the end of the master set `stop_flag`. -/
theorem Step.stopFlag_eq (step : Step ctx event next) (invariant : Invariant ctx)
    (running : ctx.stopFlag = 0) (other : event ≠ .stop) : next.stopFlag = 0 := by
  cases step with
  | produce so signalled =>
    exact (signalWorker_frame _ signalled).2.trans ((put_frame ctx so).2.2.1.trans running)
  | consume =>
    exact (signalMaster_frame ctx.take.2).2.2.1.trans ((take_frame ctx).2.2.trans running)
  | stop => exact absurd rfl other
  | join joining => exact absurd joining (invariant.running running).2.1
  | _ => exact running

/-- A run of the threads before anybody calls `mg_stop`. -/
def Running (ctx : Context W Socket) (events : List (Event W Socket)) (next : Context W Socket) :
    Prop :=
  RunWith Step (fun _ event => event ≠ .stop) ctx events next

theorem Working.step (working : Working ctx) (step : Step ctx event next)
    (other : event ≠ .stop) : Working next :=
  ⟨working.invariant.step step, step.stopFlag_eq working.invariant working.running other⟩

theorem Running.working {events : List (Event W Socket)} (run : Running ctx events next)
    (start : Working ctx) : Working next :=
  run.invariant start fun _ _ _ step working => working.step step.1 step.2

/-- Before `mg_stop`, workers take the sockets in the order of their acceptance, and those that
are not taken yet are in the queue or in the hand of the master. The counters stay small. -/
theorem fifo_of_run (zero : Socket) (events : List (Event W Socket)) (ctx : Context W Socket)
    (run : Running (.initial W zero) events ctx) :
    events.flatMap Event.accepted =
        events.flatMap Event.taken ++ (ctx.contents ++ ctx.master.pending) ∧
      ctx.contents.length ≤ mgsqlen ∧ ctx.sqHead ≤ 2 * mgsqlen := by
  have order := Run.queue run (working_initial zero)
    (fun _ _ _ step working => working.step step.1 step.2)
    fun _ _ _ step working => step.1.queue working.invariant working.running
  have invariant := (run.working (working_initial zero)).invariant
  have bounded := invariant.wellFormed.bounded
  have small := invariant.small
  change ctx.sqHead ≤ ctx.sqTail + mgsqlen at bounded
  refine ⟨order, ?_, by omega⟩
  rw [Context.contents, RingBuffer.length_contents]
  change ctx.sqHead - ctx.sqTail ≤ mgsqlen
  omega

/-- In every interleaving, also of a server that is being stopped, the sockets that were
accepted are those that have been closed or given up and those that are still held. -/
theorem conserved_of_run (zero : Socket) (events : List (Event W Socket)) (ctx : Context W Socket)
    (run : Run Step (.initial W zero) events ctx) :
    ((events.flatMap Event.accepted : List Socket) : Multiset Socket) =
      (events.flatMap fun event => event.closed ++ event.givenUp : List Socket) + ctx.held := by
  have balance := Run.stock run (invariant_initial zero)
    (fun _ _ _ step invariant => invariant.step step)
    fun _ _ _ step invariant => step.held invariant
  rwa [held_initial, zero_add] at balance

end Run

section Single

/-- The master has put a socket into the queue. -/
def queued (ctx : Context Unit ℕ) (so : ℕ) : Context Unit ℕ :=
  { (({ ctx with master := .offering so } : Context Unit ℕ).put so).signalWorker none with
    master := .polling }

/-- The worker has taken a socket. -/
def taken (ctx : Context Unit ℕ) (so : ℕ) : Context Unit ℕ :=
  { ctx with
    sqTail := ctx.sqTail + 1
    workers := Function.update ctx.workers () ⟨.returning true, so⟩ }

/-- The master has nothing in its hand, and the worker is to look at the queue. -/
structure Idle (ctx : Context Unit ℕ) : Prop where
  polling : ctx.master = .polling
  ready : (ctx.workers ()).phase = .ready

theorem run_queued {ctx : Context Unit ℕ} (idle : Idle ctx) (running : ctx.stopFlag = 0)
    (room : ctx.HasRoom) (so : ℕ) :
    Running ctx [.polls, .accept so, .produce so true none] (queued ctx so) := by
  let offering : Context Unit ℕ := { ctx with master := .offering so }
  have awake (w : Unit) : (offering.workers w).phase = .ready := idle.ready
  have produce := Step.produce offering so none (.inl rfl)
    ⟨fun w => by rw [awake]; nofun, nofun⟩ (fun waits => waits.2 room)
    fun w => by rw [awake]; nofun
  rw [decide_eq_true (show offering.HasRoom from room)] at produce
  exact .cons ⟨.polls ctx idle.polling running, nofun⟩
    (.cons ⟨.accept { ctx with master := .accepting } so rfl, nofun⟩ (.of_step ⟨produce, nofun⟩))

theorem step_taken {ctx : Context Unit ℕ} (idle : Idle ctx) (some : ctx.sqTail < ctx.sqHead)
    (small : ctx.sqTail < mgsqlen) :
    let so := ctx.queue (Fin.ofNat mgsqlen ctx.sqTail)
    Step ctx (.consume () (Option.some so)) (taken ctx so) := by
  have take : ctx.take = (Option.some (ctx.queue (Fin.ofNat mgsqlen ctx.sqTail)),
      { ctx with sqTail := ctx.sqTail + 1 }) := by
    rw [Context.take, if_pos some, wrap, if_neg (by omega)]
  have free : ctx.MutexFree := by
    rw [Context.MutexFree, idle.polling]
    exact ⟨fun w => by simp [idle.ready], fun so => by simp⟩
  have consume := Step.consume ctx () (.inl idle.ready) free fun waits => some.ne' waits.1
  rw [take, signalMaster_of_ne (by simp [idle.polling])] at consume
  exact consume

/-- Two sockets are queued, and the worker takes the first one. -/
theorem run_taken :
    Running (.initial Unit 0) ([.polls, .accept 1, .produce 1 true none] ++
        ([.polls, .accept 2, .produce 2 true none] ++ [.consume () (some 1)]))
      (taken (queued (queued (.initial Unit 0) 1) 2) 1) :=
  (run_queued ⟨rfl, rfl⟩ rfl (by decide) 1).append
    ((run_queued ⟨rfl, rfl⟩ rfl (by decide) 2).append
      (.of_step ⟨step_taken ⟨rfl, rfl⟩ (by decide) (by decide), nofun⟩))

/-- The other one is the next. -/
theorem fifo_of_run_taken :
    let ctx := taken (queued (queued (.initial Unit 0) 1) 2) 1
    [1, 2] = [1] ++ (ctx.contents ++ ctx.master.pending) ∧
      ctx.contents.length ≤ mgsqlen ∧ ctx.sqHead ≤ 2 * mgsqlen :=
  fifo_of_run 0 _ _ run_taken

/-- The worker has served a socket and closed it. -/
def closed (ctx : Context Unit ℕ) (so : ℕ) : Context Unit ℕ :=
  ((taken ctx so).setPhase () .serving).setPhase () .ready

/-- `mg_stop` is called while the worker is on its way back with a socket. -/
def gaveUp (ctx : Context Unit ℕ) (so : ℕ) : Context Unit ℕ :=
  ({ taken ctx so with stopFlag := 1 } : Context Unit ℕ).setPhase () .exited

/-- The first socket is served and closed, and the worker exits with the second one. -/
theorem run_gaveUp :
    Run Step (.initial Unit 0) ([.polls, .accept 1, .produce 1 true none] ++
        ([.consume () (some 1), .returns () (some 1) true, .close () 1] ++
          ([.polls, .accept 2, .produce 2 true none] ++
            [.consume () (some 2), .stop, .returns () (some 2) false])))
      (gaveUp (queued (closed (queued (.initial Unit 0) 1) 1) 2) 2) := by
  let first := queued (.initial Unit 0) 1
  let second := queued (closed first 1) 2
  have arrives : Running (.initial Unit 0) [.polls, .accept 1, .produce 1 true none] first :=
    run_queued ⟨rfl, rfl⟩ rfl (by decide) 1
  have isServed : Run Step first [.consume () (some 1), .returns () (some 1) true, .close () 1]
      (closed first 1) :=
    .cons (step_taken ⟨rfl, rfl⟩ (by decide) (by decide))
      (.cons (.returns (taken first 1) () true rfl)
        (.of_step (.close ((taken first 1).setPhase () .serving) () rfl)))
  have follows : Running (closed first 1) [.polls, .accept 2, .produce 2 true none] second :=
    run_queued ⟨rfl, rfl⟩ rfl (by decide) 2
  have isGivenUp : Run Step second [.consume () (some 2), .stop, .returns () (some 2) false]
      (gaveUp second 2) :=
    .cons (step_taken ⟨rfl, rfl⟩ (by decide) (by decide))
      (.cons (.stop (taken second 2) rfl)
        (.of_step (.returns { taken second 2 with stopFlag := 1 } () true rfl)))
  exact (arrives.imp fun _ _ _ step => step.1).append
    (isServed.append ((follows.imp fun _ _ _ step => step.1).append isGivenUp))

/-- One socket has been closed and one given up. -/
theorem conserved_of_run_gaveUp :
    (([1, 2] : List ℕ) : Multiset ℕ) = ([1, 2] : List ℕ) +
      (gaveUp (queued (closed (queued (.initial Unit 0) 1) 1) 2) 2).held :=
  conserved_of_run 0 _ _ run_gaveUp

end Single

end SocketQueue

end FlowRetrieval
