/-
# No wakeup is lost

Before `mg_stop`, the threads of mongoose never all wait for each other. As long as a socket is
in the hand of the master, in the queue or with a worker, some thread can take a step, and every
such step brings the server closer to having closed all of them: the steps that are left are
bounded, whichever thread goes first.

## Main results

* `SocketQueue.exists_step` — a server with work to do is never stuck
* `SocketQueue.progress_of_run` — on its own, every schedule ends with all sockets closed
-/
import FlowRetrieval.Mongoose.Handover

namespace FlowRetrieval

open CS CS.Transition

namespace SocketQueue

variable {W Socket : Type}

/-- What the threads do on their own: no connection arrives, nobody calls `mg_stop`, and no wait
ends without a signal. -/
def Event.Inner : Event W Socket → Prop
  | .produce .. | .masterDozes | .masterSleeps => True
  | .consume .. | .returns .. | .dozes _ | .sleeps _ | .close .. => True
  | .polls | .accept _ | .acceptsNone | .masterWakes | .wakes _ | .stop | .quit | .join => False

/-- How far a thread is from its sleep. -/
def Worker.unrest (worker : Worker Socket) : ℕ :=
  match worker.phase with
  | .ready | .woken => 2
  | .dozing | .returning _ => 1
  | .sleeping | .serving | .exited => 0

/-- `Worker.unrest`, of the master. -/
def Master.unrest : Master Socket → ℕ
  | .offering _ | .woken _ => 2
  | .dozing _ => 1
  | .polling | .accepting | .sleeping _ | .joining | .done => 0

variable [Fintype W]

/-- What is left to do for the sockets. -/
def Context.work (ctx : Context W Socket) : ℕ :=
  3 * ctx.master.pending.length + 2 * ctx.contents.length + ctx.served.card

/-- A bound for the steps that are left. A step for a socket may wake two threads. -/
def Context.rank (ctx : Context W Socket) : ℕ :=
  5 * ctx.work + ctx.master.unrest + ∑ w, (ctx.workers w).unrest

theorem work_eq_zero_iff (ctx : Context W Socket) : ctx.work = 0 ↔ ctx.held = 0 := by
  rw [Context.work, Context.held, ← Multiset.card_eq_zero, Multiset.card_add, Multiset.coe_card,
    List.length_append]
  omega

variable [DecidableEq W] {ctx next : Context W Socket} {event : Event W Socket}

theorem unrest_setPhase (ctx : Context W Socket) (w : W) (phase : Phase) :
    (∑ v, ((ctx.setPhase w phase).workers v).unrest) + (ctx.workers w).unrest =
      ∑ v, (ctx.workers v).unrest + Worker.unrest ⟨phase, (ctx.workers w).client⟩ :=
  Census.sum_update Worker.unrest ctx.workers w _

section Rank

/-- A step of a worker that keeps what it has, and brings it closer to its sleep. -/
theorem rank_setPhase_lt {w : W} {phase : Phase}
    (same : phase.busy = (ctx.workers w).phase.busy)
    (rests : Worker.unrest ⟨phase, (ctx.workers w).client⟩ < (ctx.workers w).unrest) :
    (ctx.setPhase w phase).rank < ctx.rank := by
  have unrest := unrest_setPhase ctx w phase
  have served := served_setPhase_of_eq same
  have work : (ctx.setPhase w phase).work = ctx.work := by
    rw [Context.work, served]
    rfl
  rw [Context.rank, Context.rank, work]
  change _ + ctx.master.unrest + _ < _
  omega

omit [DecidableEq W] in
/-- A step of the master that leaves the queue alone. -/
theorem rank_master_lt {master : Master Socket} (pending : master.pending = ctx.master.pending)
    (rests : master.unrest < ctx.master.unrest) :
    { ctx with master := master }.rank < ctx.rank := by
  have work : { ctx with master := master }.work = ctx.work := by
    rw [Context.work, Context.work, pending]
    rfl
  rw [Context.rank, Context.rank, work]
  change _ + master.unrest + ∑ w, (ctx.workers w).unrest < _
  omega

/-- A call of `produce_socket` moves a socket on, and may wake a worker. -/
theorem rank_produce_lt (working : Working ctx) {so : Socket} {signalled : Option W}
    (offers : ctx.master = .offering so ∨ ctx.master = .woken so) (goes : ¬ ctx.ProducerWaits)
    (signals : ctx.Signals signalled) :
    { (ctx.put so).signalWorker signalled with master := .polling }.rank < ctx.rank := by
  have room : ctx.HasRoom := by
    by_contra full
    exact goes ⟨working.running, full⟩
  obtain ⟨-, contents, -⟩ := put_of_hasRoom working.invariant.wellFormed room so
  have workers := (put_frame ctx so).2.1
  have pending := congrArg List.length (pending_of_offers offers)
  have work : { (ctx.put so).signalWorker signalled with master := .polling }.work + 1 =
      ctx.work := by
    change 3 * 0 + 2 * ((ctx.put so).signalWorker signalled).contents.length +
      ((ctx.put so).signalWorker signalled).served.card + 1 = _
    rw [contents_signalWorker, contents, served_signalWorker so signals, Context.work, pending,
      List.length_append, List.length_singleton]
    omega
  have unrest : (∑ v, (((ctx.put so).signalWorker signalled).workers v).unrest) ≤
      ∑ v, (ctx.workers v).unrest + 2 := by
    cases signalled with
    | none =>
      change (∑ v, ((ctx.put so).workers v).unrest) ≤ _
      rw [workers]
      omega
    | some w =>
      have more := unrest_setPhase (ctx.put so) w .woken
      rw [workers] at more
      change _ + _ = _ + 2 at more
      change (∑ v, (((ctx.put so).setPhase w .woken).workers v).unrest) ≤ _
      omega
  rw [Context.rank, Context.rank]
  change _ + 0 + (∑ v, (((ctx.put so).signalWorker signalled).workers v).unrest) < _
  omega

/-- A call of `consume_socket` moves a socket on, and may wake the master. -/
theorem rank_consume_lt (working : Working ctx) {w : W}
    (calls : (ctx.workers w).phase = .ready ∨ (ctx.workers w).phase = .woken)
    (goes : ¬ ctx.ConsumerWaits) :
    { ctx.take.2.signalMaster with
        workers := Function.update ctx.workers w
          ⟨.returning ctx.take.1.isSome, ctx.take.1.getD (ctx.workers w).client⟩ }.rank <
      ctx.rank := by
  obtain ⟨so, got⟩ := take_of_running working.invariant working.running goes
  have contents := congrArg List.length (contents_take working.invariant)
  rw [got] at contents
  have idle : (ctx.workers w).phase.busy = false := by
    rcases calls with is | is <;> rw [is] <;> rfl
  have restless : (ctx.workers w).unrest = 2 := by
    rw [Worker.unrest]
    rcases calls with is | is <;> rw [is]
  have served := congrArg Multiset.card (served_update idle
    ⟨.returning ctx.take.1.isSome, ctx.take.1.getD (ctx.workers w).client⟩)
  have unrest := Census.sum_update Worker.unrest ctx.workers w
    ⟨.returning ctx.take.1.isSome, ctx.take.1.getD (ctx.workers w).client⟩
  rw [restless] at unrest
  rw [got] at served unrest ⊢
  have master : ctx.take.2.signalMaster.master.unrest ≤ ctx.master.unrest + 2 := by
    rw [Context.signalMaster]
    split
    · exact Nat.le_add_left _ _
    · rw [(take_frame ctx).1]
      exact Nat.le_add_right _ _
  rw [Option.toList_some, List.singleton_append, List.length_cons] at contents
  change _ + 2 = _ + 1 at unrest
  rw [Context.rank, Context.rank, Context.work, Context.work]
  change 5 * (3 * ctx.take.2.signalMaster.master.pending.length +
    2 * ctx.take.2.signalMaster.contents.length +
      Multiset.card (∑ v, Worker.serves (Function.update ctx.workers w ⟨.returning true, _⟩ v))) +
      ctx.take.2.signalMaster.master.unrest +
        (∑ v, Worker.unrest (Function.update ctx.workers w ⟨.returning true, _⟩ v)) < _
  rw [pending_signalMaster, contents_signalMaster, (take_frame ctx).1]
  change _ = Multiset.card (ctx.served + {_}) at served
  rw [Multiset.card_add, Multiset.card_singleton] at served
  rw [Option.isSome_some] at served unrest
  omega

/-- Every step that the threads take on their own lowers the rank. -/
theorem Step.rank_lt (step : Step ctx event next) (inner : event.Inner) (working : Working ctx) :
    next.rank < ctx.rank := by
  cases step with
  | polls | accept | acceptsNone | masterWakes | wakes | stop | quit | join => exact inner.elim
  | produce so signalled offers free goes signals =>
    exact rank_produce_lt working offers goes signals
  | masterDozes so offers =>
    refine rank_master_lt (pending_of_offers offers).symm ?_
    rcases offers with is | is <;> rw [is] <;> exact Nat.lt_succ_self 1
  | masterSleeps so is =>
    refine rank_master_lt ?_ ?_ <;> rw [is]
    · rfl
    · exact Nat.one_pos
  | consume w calls free goes => exact rank_consume_lt working calls goes
  | returns w got back =>
    have some : got = true := by
      cases got with
      | true => rfl
      | false => exact absurd working.running (working.invariant.emptyHanded w back)
    rw [if_pos working.running]
    refine rank_setPhase_lt ?_ ?_
    · rw [back, some]
      rfl
    · rw [Worker.unrest.eq_def (ctx.workers w), back]
      exact Nat.one_pos
  | dozes w calls =>
    refine rank_setPhase_lt ?_ ?_
    · rcases calls with is | is <;> rw [is] <;> rfl
    · rw [Worker.unrest.eq_def (ctx.workers w)]
      rcases calls with is | is <;> rw [is] <;> exact Nat.lt_succ_self 1
  | sleeps w is =>
    refine rank_setPhase_lt ?_ ?_
    · rw [is]
      rfl
    · rw [Worker.unrest.eq_def (ctx.workers w), is]
      exact Nat.one_pos
  | close w is =>
    have gone : ctx.served = (ctx.workers w).serves + (ctx.setPhase w .ready).served :=
      served_setPhase_idle rfl
    have fewer := congrArg Multiset.card gone
    have unrest := unrest_setPhase ctx w .ready
    have client : (ctx.workers w).serves = {(ctx.workers w).client} := if_pos (by rw [is]; rfl)
    rw [client, Multiset.card_add, Multiset.card_singleton] at fewer
    change _ + _ = _ + 2 at unrest
    rw [Context.rank, Context.rank, Context.work, Context.work]
    change 5 * (3 * ctx.master.pending.length + 2 * ctx.contents.length + _) +
      ctx.master.unrest + _ < _
    omega

end Rank

section Enabled

omit [DecidableEq W] in
/-- When nobody has a socket and none is queued, the work left is that of the master. -/
theorem offers_of_idle (working : Working ctx) (busy : 0 < ctx.work)
    (idle : ∀ w, (ctx.workers w).phase.busy = false) (empty : ctx.contents = [])
    (free : ctx.MutexFree) : ∃ so, ctx.master = .offering so ∨ ctx.master = .woken so := by
  have served : ctx.served = 0 := Finset.sum_eq_zero fun w _ =>
    if_neg (Bool.eq_false_iff.mp (idle w))
  have level := (RingBuffer.contents_eq_nil_iff ctx.ring).mp empty
  change ctx.sqHead ≤ ctx.sqTail at level
  rw [Context.work, served, empty] at busy
  cases here : ctx.master with
  | offering so => exact ⟨so, .inl rfl⟩
  | woken so => exact ⟨so, .inr rfl⟩
  | dozing so => exact absurd here (free.2 so)
  | sleeping so =>
    -- the master sleeps only if the queue is full
    have full := working.invariant.full so (.inr here)
    have positive := mgsqlen_pos
    omega
  | polling | accepting | joining | done =>
    rw [here] at busy
    cases busy

omit [DecidableEq W] in
/-- When a socket is queued, some worker is about to look for one. -/
theorem calls_of_queued [Nonempty W] (working : Working ctx)
    (idle : ∀ w, (ctx.workers w).phase.busy = false) (queued : ctx.contents ≠ [])
    (free : ctx.MutexFree) :
    ∃ w, (ctx.workers w).phase = .ready ∨ (ctx.workers w).phase = .woken := by
  have level := mt (RingBuffer.contents_eq_nil_iff ctx.ring).mpr queued
  change ¬ ctx.sqHead ≤ ctx.sqTail at level
  by_cases sleepers : ∃ w, (ctx.workers w).phase = .sleeping
  · obtain ⟨w, sleeps⟩ := sleepers
    -- a worker sleeps only if enough others have been signalled
    have enough := working.invariant.alert w sleeps
    obtain ⟨v, alert⟩ : ∃ v, 0 < (ctx.workers v).alertness :=
      Census.exists_of_sum_pos (show 0 < ctx.alert by omega)
    refine ⟨v, .inr ?_⟩
    by_contra other
    rw [Worker.alertness, if_neg other] at alert
    exact Nat.lt_irrefl 0 alert
  · obtain ⟨w⟩ := ‹Nonempty W›
    refine ⟨w, ?_⟩
    cases here : (ctx.workers w).phase with
    | ready => exact .inl rfl
    | woken => exact .inr rfl
    | dozing => exact absurd here (free.1 w)
    | sleeping => exact absurd ⟨w, here⟩ sleepers
    | serving =>
      have none := idle w
      rw [here] at none
      cases none
    | returning got =>
      have none := idle w
      rw [here] at none
      obtain rfl : got = false := none
      exact absurd working.running (working.invariant.emptyHanded w here)
    | exited => exact absurd here ((working.invariant.running working.running).1 w)

/-- A server that has sockets to work on is never stuck. -/
theorem exists_step [Nonempty W] (working : Working ctx) (busy : 0 < ctx.work) :
    ∃ event next, event.Inner ∧ Step ctx event next := by
  -- a thread that holds the mutex can go to sleep
  by_cases dozer : ∃ w, (ctx.workers w).phase = .dozing
  · obtain ⟨w, dozes⟩ := dozer
    exact ⟨.sleeps w, _, trivial, .sleeps ctx w dozes⟩
  by_cases masterDozes : ∃ so, ctx.master = .dozing so
  · obtain ⟨so, dozes⟩ := masterDozes
    exact ⟨.masterSleeps, _, trivial, .masterSleeps ctx so dozes⟩
  have free : ctx.MutexFree := ⟨not_exists.mp dozer, not_exists.mp masterDozes⟩
  by_cases server : ∃ w, (ctx.workers w).phase.busy = true
  · obtain ⟨w, has⟩ := server
    cases here : (ctx.workers w).phase with
    | serving => exact ⟨.close w _, _, trivial, .close ctx w here⟩
    | returning got => exact ⟨.returns w _ _, _, trivial, .returns ctx w got here⟩
    | ready | dozing | sleeping | woken | exited =>
      rw [here] at has
      cases has
  have idle (w : W) : (ctx.workers w).phase.busy = false :=
    Bool.eq_false_iff.mpr (not_exists.mp server w)
  by_cases empty : ctx.contents = []
  · obtain ⟨so, offers⟩ := offers_of_idle working busy idle empty free
    have room : ctx.HasRoom := by
      have level := (RingBuffer.contents_eq_nil_iff ctx.ring).mp empty
      change ctx.sqHead ≤ ctx.sqTail at level
      rw [Context.HasRoom, Nat.sub_eq_zero_of_le level]
      exact mgsqlen_pos
    obtain ⟨signalled, signals⟩ : ∃ signalled, ctx.Signals signalled := by
      by_cases sleeper : ∃ w, (ctx.workers w).phase = .sleeping
      · exact ⟨some sleeper.choose, sleeper.choose_spec⟩
      · exact ⟨none, not_exists.mp sleeper⟩
    exact ⟨.produce so _ signalled, _, trivial,
      .produce ctx so signalled offers free (fun waits => waits.2 room) signals⟩
  · obtain ⟨w, calls⟩ := calls_of_queued working idle empty free
    have goes : ¬ ctx.ConsumerWaits := fun waits =>
      empty ((RingBuffer.contents_eq_nil_iff ctx.ring).mpr waits.1.le)
    exact ⟨.consume w _, _, trivial, .consume ctx w calls free goes⟩

end Enabled

section Run

/-- Steps that the threads take on their own. -/
def OnItsOwn (ctx : Context W Socket) (events : List (Event W Socket))
    (next : Context W Socket) : Prop :=
  RunWith Step (fun _ event => event.Inner) ctx events next

omit [Fintype W] in
theorem OnItsOwn.running {events : List (Event W Socket)} (run : OnItsOwn ctx events next) :
    Running ctx events next :=
  Run.imp run fun _ _ _ step => ⟨step.1, fun stop => by rw [stop] at step; exact step.2⟩

omit [Fintype W] in
theorem OnItsOwn.accepted_eq {events : List (Event W Socket)} (run : OnItsOwn ctx events next) :
    events.flatMap Event.accepted = [] := by
  induction run with
  | nil => rfl
  | @cons _ _ _ event _ head _ ih =>
    rw [List.flatMap_cons, ih, List.append_nil]
    cases event with
    | accept => exact head.2.elim
    | _ => rfl

/-- Before `mg_stop`, what is accepted is held until it is closed. -/
theorem Running.held {events : List (Event W Socket)} (run : Running ctx events next)
    (working : Working ctx) :
    ctx.held + (events.flatMap Event.accepted : List Socket) =
      (events.flatMap Event.closed : List Socket) + next.held := by
  refine Run.stock run working (fun _ _ _ step working => working.step step.1 step.2)
    fun _ _ _ step working => ?_
  rw [step.1.held working.invariant, step.1.givenUp_eq working.running, List.append_nil]

/-- Before `mg_stop`, whatever has happened so far: if no connection arrives any more, the
threads take only so many steps, in whichever order they go, and when they can take no more,
every socket that was accepted has been closed. -/
theorem progress_of_run [Nonempty W] (zero : Socket) (events more : List (Event W Socket))
    (ctx next : Context W Socket) (run : Running (.initial W zero) events ctx)
    (later : OnItsOwn ctx more next) :
    more.length + next.rank ≤ ctx.rank ∧
      ((∀ event after, event.Inner → ¬ Step next event after) →
        ((events.flatMap Event.accepted : List Socket) : Multiset Socket) =
          (events.flatMap Event.closed ++ more.flatMap Event.closed : List Socket)) := by
  have working := run.working (working_initial zero)
  refine ⟨Run.length_le Context.rank later working
    (fun _ _ _ step working =>
      working.step step.1 fun stop => by rw [stop] at step; exact step.2)
    fun _ _ _ step working => step.1.rank_lt step.2 working, fun stuck => ?_⟩
  have finished : next.held = 0 := by
    rw [← work_eq_zero_iff]
    by_contra busy
    obtain ⟨event, after, inner, step⟩ :=
      exists_step (later.running.working working) (Nat.pos_of_ne_zero busy)
    exact stuck event after inner step
  have before := run.held (working_initial zero)
  have behind := later.running.held working
  rw [held_initial, zero_add] at before
  rw [later.accepted_eq, finished, Multiset.coe_nil, add_zero, add_zero] at behind
  rw [before, behind, Multiset.coe_add]

end Run

section Single

/-- A socket is queued, and the worker looks at the queue. -/
def busyServer : Context Unit ℕ := queued (.initial Unit 0) 1

/-- The worker takes the socket, closes it and goes to sleep. -/
theorem onItsOwn_busyServer :
    OnItsOwn busyServer
      [.consume () (some 1), .returns () (some 1) true, .close () 1, .dozes (), .sleeps ()]
      (((closed busyServer 1).setPhase () .dozing).setPhase () .sleeping) :=
  .cons ⟨step_taken ⟨rfl, rfl⟩ (by decide) (by decide), trivial⟩
    (.cons ⟨.returns (taken busyServer 1) () true rfl, trivial⟩
      (.cons ⟨.close ((taken busyServer 1).setPhase () .serving) () rfl, trivial⟩
        (.cons ⟨.dozes (closed busyServer 1) () (.inl rfl) ⟨nofun, nofun⟩ ⟨rfl, rfl⟩, trivial⟩
          (.of_step ⟨.sleeps ((closed busyServer 1).setPhase () .dozing) () rfl, trivial⟩))))

/-- Then the socket has been closed. -/
theorem progress_of_run_busyServer :
    5 + (((closed busyServer 1).setPhase () .dozing).setPhase () .sleeping).rank ≤
        busyServer.rank ∧
      ((∀ event after, event.Inner →
          ¬ Step (((closed busyServer 1).setPhase () .dozing).setPhase () .sleeping) event
            after) →
        (([1] : List ℕ) : Multiset ℕ) = ([] ++ [1] : List ℕ)) :=
  progress_of_run 0 _ _ busyServer _ (run_queued ⟨rfl, rfl⟩ rfl (by decide) 1)
    onItsOwn_busyServer

end Single

end SocketQueue

end FlowRetrieval
