/-
# Stopping the server

`mg_stop` sets `stop_flag` and waits for the master, which leaves its loop, wakes the workers
and waits for them to exit. Neither the flag nor the broadcast is protected by the mutex. So a
worker that has found the flag unset and the queue empty may go to sleep behind the broadcast,
and then nobody is left to wake it.

## Main results

* `SocketQueue.stops_iff` — when the server stops in whichever order the threads go on
-/
import Mathlib.Algebra.Group.Action.Defs
import FlowRetrieval.Mongoose.Progress

namespace FlowRetrieval

open CS CS.Transition

namespace SocketQueue

variable {W Socket : Type}

/-- The master waits for the workers to exit. -/
structure Closing (ctx : Context W Socket) : Prop where
  joining : ctx.master = .joining
  stopped : ctx.stopFlag ≠ 0

/-- No thread can take a step on its own. -/
def Stuck [DecidableEq W] (ctx : Context W Socket) : Prop :=
  ∀ event next, event.Inner → ¬ Step ctx event next

/-- How many steps a worker is from its end, at most. -/
def Worker.distance (worker : Worker Socket) : ℕ :=
  match worker.phase with
  | .serving => 3
  | .ready | .woken => 2
  | .dozing | .returning _ => 1
  | .sleeping | .exited => 0

/-- What a worker does while the master waits for it. -/
inductive Leaves : Phase → Phase → Prop
  | ready (got : Bool) : Leaves .ready (.returning got)
  | woken (got : Bool) : Leaves .woken (.returning got)
  | returning (got : Bool) : Leaves (.returning got) .exited
  | dozing : Leaves .dozing .sleeping
  | serving : Leaves .serving .ready

variable [DecidableEq W] {ctx next : Context W Socket} {event : Event W Socket}

/-- Behind the broadcast, one worker after the other goes on, and nothing else happens. -/
theorem Closing.step (closing : Closing ctx) (inner : event.Inner) (step : Step ctx event next) :
    Closing next ∧ ∃ w phase client, Leaves (ctx.workers w).phase phase ∧
      next.workers = Function.update ctx.workers w ⟨phase, client⟩ := by
  have joining := closing.joining
  cases step with
  | polls | accept | acceptsNone | masterWakes | wakes | stop | quit | join => exact inner.elim
  | produce so signalled offers | masterDozes so offers =>
    rcases offers with is | is <;> rw [joining] at is <;> cases is
  | masterSleeps so is =>
    rw [joining] at is
    cases is
  | consume w calls free goes =>
    refine ⟨⟨?_, ?_⟩, w, .returning ctx.take.1.isSome, ctx.take.1.getD (ctx.workers w).client, ?_,
      rfl⟩
    · change ctx.take.2.signalMaster.master = .joining
      have master := (take_frame ctx).1.trans joining
      rw [signalMaster_of_ne (by rw [master]; nofun), master]
    · have same := (signalMaster_frame ctx.take.2).2.2.1.trans (take_frame ctx).2.2
      exact same.trans_ne closing.stopped
    · rcases calls with is | is <;> rw [is] <;> constructor
  | returns w got back =>
    rw [if_neg closing.stopped]
    exact ⟨⟨joining, closing.stopped⟩, w, .exited, _, back ▸ .returning got, rfl⟩
  | dozes w calls free waits => exact absurd waits.2 closing.stopped
  | sleeps w is =>
    exact ⟨⟨joining, closing.stopped⟩, w, .sleeping, _, is ▸ .dozing, rfl⟩
  | close w is =>
    exact ⟨⟨joining, closing.stopped⟩, w, .ready, _, is ▸ .serving, rfl⟩

theorem Closing.run (closing : Closing ctx) {more : List (Event W Socket)}
    (run : OnItsOwn ctx more next) : Closing next :=
  Run.invariant run closing fun _ _ _ step closing => (closing.step step.2 step.1).1

section Ends

variable [Fintype W]

/-- Every step takes a worker closer to its end. -/
theorem Closing.distance_lt (closing : Closing ctx) (inner : event.Inner)
    (step : Step ctx event next) :
    ∑ w, (next.workers w).distance < ∑ w, (ctx.workers w).distance := by
  obtain ⟨-, w, phase, client, leaves, workers⟩ := closing.step inner step
  have balance := Census.sum_update Worker.distance ctx.workers w ⟨phase, client⟩
  have closer : Worker.distance ⟨phase, client⟩ < (ctx.workers w).distance := by
    rw [Worker.distance.eq_def (ctx.workers w)]
    generalize (ctx.workers w).phase = old at leaves
    cases leaves <;> simp [Worker.distance]
  rw [workers]
  omega

theorem Closing.length_le (closing : Closing ctx) {more : List (Event W Socket)}
    (run : OnItsOwn ctx more next) :
    more.length + ∑ w, (next.workers w).distance ≤ ∑ w, (ctx.workers w).distance :=
  Run.length_le (fun ctx => ∑ w, (ctx.workers w).distance) run closing
    (fun _ _ _ step closing => (closing.step step.2 step.1).1)
    fun _ _ _ step closing => closing.distance_lt step.2 step.1

/-- The threads go on until they can take no more steps. -/
theorem Closing.exists_stuck (closing : Closing ctx) :
    ∃ more next, OnItsOwn ctx more next ∧ Stuck next := by
  induction bound : ∑ w, (ctx.workers w).distance using Nat.strong_induction_on
    generalizing ctx with
  | _ n ih =>
    by_cases stuck : Stuck ctx
    · exact ⟨[], ctx, .nil ctx, stuck⟩
    · simp only [Stuck, not_forall, not_not] at stuck
      obtain ⟨event, next, inner, step⟩ := stuck
      have lower := closing.distance_lt inner step
      obtain ⟨more, last, run, stuck⟩ :=
        ih _ (bound ▸ lower) (closing.step inner step).1 rfl
      exact ⟨event :: more, last, .cons ⟨step, inner⟩ run, stuck⟩

end Ends

section Sleep

/-- A worker that nobody will wake. -/
def Asleep (ctx : Context W Socket) (w : W) : Prop :=
  (ctx.workers w).phase = .dozing ∨ (ctx.workers w).phase = .sleeping

/-- Behind the broadcast no worker wakes up, and none goes to sleep that had not tested before. -/
theorem Closing.asleep_iff (closing : Closing ctx) (inner : event.Inner)
    (step : Step ctx event next) (w : W) : Asleep next w ↔ Asleep ctx w := by
  obtain ⟨-, v, phase, client, leaves, workers⟩ := closing.step inner step
  rw [Asleep, Asleep, workers]
  by_cases same : w = v
  · rw [same, Function.update_self]
    generalize (ctx.workers v).phase = old at leaves
    cases leaves <;> simp
  · rw [Function.update_of_ne same]

theorem Closing.asleep_run (closing : Closing ctx) {more : List (Event W Socket)}
    (run : OnItsOwn ctx more next) (w : W) : Asleep next w ↔ Asleep ctx w := by
  have kept := @Run.invariant _ _ _ (fun other => Closing other ∧ (Asleep other w ↔ Asleep ctx w))
    _ _ _ run ⟨closing, Iff.rfl⟩ fun _ _ _ step property =>
      ⟨(property.1.step step.2 step.1).1,
        (property.1.asleep_iff step.2 step.1 w).trans property.2⟩
  exact kept.2

/-- Workers that are awake go on until they exit. -/
theorem Closing.exited_of_stuck (closing : Closing ctx) (stuck : Stuck ctx)
    (awake : ∀ w, ¬ Asleep ctx w) (w : W) : (ctx.workers w).phase = .exited := by
  have free : ctx.MutexFree :=
    ⟨fun v dozes => awake v (.inl dozes), fun so => by rw [closing.joining]; nofun⟩
  have goes : ¬ ctx.ConsumerWaits := fun waits => closing.stopped waits.2
  cases here : (ctx.workers w).phase with
  | exited => rfl
  | ready => exact absurd (.consume ctx w (.inl here) free goes) (stuck (.consume w _) _ trivial)
  | woken => exact absurd (.consume ctx w (.inr here) free goes) (stuck (.consume w _) _ trivial)
  | returning got => exact absurd (.returns ctx w got here) (stuck (.returns w _ _) _ trivial)
  | dozing => exact absurd (.inl here) (awake w)
  | sleeping => exact absurd (.inr here) (awake w)
  | serving => exact absurd (.close ctx w here) (stuck (.close w _) _ trivial)

/-- The broadcast wakes those that sleep, and no others. -/
theorem asleep_quit (quit : Step ctx .quit next) (w : W) :
    Asleep next w ↔ (ctx.workers w).phase = .dozing := by
  cases quit with
  | quit polling stopped =>
    change (ctx.broadcast.workers w).phase = _ ∨ (ctx.broadcast.workers w).phase = _ ↔ _
    rw [phase_broadcast]
    split
    · rename_i sleeps
      simp [sleeps]
    · rename_i other
      simp [other]

/-- The server stops, in whichever order the threads go on behind the broadcast of the master,
iff no worker has just found that it has to wait. -/
theorem stops_iff [Fintype W] (ctx next : Context W Socket) (quit : Step ctx .quit next) :
    (∀ more last, OnItsOwn next more last →
        more.length ≤ 3 * Fintype.card W ∧ (Stuck last → ∀ w, (last.workers w).phase = .exited)) ↔
      ∀ w, (ctx.workers w).phase ≠ .dozing := by
  have closing : Closing next := by
    cases quit with
    | quit polling stopped => exact ⟨rfl, stopped⟩
  constructor
  · intro stops w dozes
    obtain ⟨more, last, run, stuck⟩ := closing.exists_stuck
    have exited := (stops more last run).2 stuck w
    have asleep := (closing.asleep_run run w).mpr ((asleep_quit quit w).mpr dozes)
    rcases asleep with is | is <;> rw [exited] at is <;> cases is
  · intro awake more last run
    refine ⟨?_, fun stuck => ?_⟩
    · have short := closing.length_le run
      have each (w : W) : (next.workers w).distance ≤ 3 := by
        rw [Worker.distance]
        split <;> omega
      have total := Finset.sum_le_card_nsmul Finset.univ (fun w => (next.workers w).distance) 3
        fun w _ => each w
      rw [Finset.card_univ, smul_eq_mul] at total
      omega
    · exact (closing.run run).exited_of_stuck stuck fun w asleep =>
        awake w ((asleep_quit quit w).mp ((closing.asleep_run run w).mp asleep))

end Sleep

section Single

/-- A server with one worker is told to stop. -/
def stopped (phase : Phase) : Context Unit ℕ :=
  { (Context.initial Unit 0).setPhase () phase with stopFlag := 1 }

/-- The broadcast reaches a worker that sleeps, but not one that is about to. -/
theorem stops_stopped :
    (∀ more last, OnItsOwn { (stopped .sleeping).broadcast with master := .joining } more last →
        more.length ≤ 3 * Fintype.card Unit ∧
          (Stuck last → ∀ w, (last.workers w).phase = .exited)) ∧
      ¬ ∀ more last, OnItsOwn { (stopped .dozing).broadcast with master := .joining } more last →
        more.length ≤ 3 * Fintype.card Unit ∧
          (Stuck last → ∀ w, (last.workers w).phase = .exited) :=
  ⟨(stops_iff (stopped .sleeping) _ (.quit (stopped .sleeping) rfl nofun)).mpr nofun,
    fun stops => (stops_iff (stopped .dozing) _ (.quit (stopped .dozing) rfl nofun)).mp stops ()
      rfl⟩

end Single

end SocketQueue

end FlowRetrieval
