/-
# The queue of accepted sockets

The master thread of mongoose accepts connections and puts their sockets into a ring of
`MGSQLEN` slots; worker threads take them out, serve them and close them. Both sides wait at a
condition variable, the master when the ring is full and a worker when it is empty, and both
signal the other side on every pass. A critical section is one step here, except that a thread
which finds that it has to wait stands between its test and the wait for a moment: `stop_flag`
is set, and the workers are woken for the last time, by threads that do not hold the mutex. A
worker looks at the flag once more when it has released the mutex, and the master before it
accepts a connection, and anything may happen between that and what they do then.

## Main results

* `SocketQueue.take_of_lt`, `put_of_hasRoom` — the critical sections on the list of sockets
-/
import FlowRetrieval.CS.RingBuffer
import FlowRetrieval.CS.Transition

namespace FlowRetrieval

open CS

namespace SocketQueue

/-- `MGSQLEN`. -/
abbrev mgsqlen : ℕ := 20

theorem mgsqlen_pos : 0 < mgsqlen := Nat.succ_pos _

/-- Where a worker thread is. -/
inductive Phase where
  /-- At the call of `consume_socket`. -/
  | ready
  /-- With the mutex, between the test of the loop and `pthread_cond_wait`. -/
  | dozing
  /-- In `pthread_cond_wait`, for `sq_full`. -/
  | sleeping
  /-- Signalled, and in need of the mutex to leave `pthread_cond_wait`. -/
  | woken
  /-- Behind the critical section, before `stop_flag` is read for the value of `consume_socket`;
  there may be a new socket in `conn->client`. -/
  | returning (got : Bool)
  /-- In `process_new_connection` or `close_connection`. -/
  | serving
  | exited
  deriving DecidableEq, Repr

/-- A worker thread, with `conn->client`. -/
structure Worker (Socket : Type) where
  phase : Phase
  client : Socket

/-- Where the master thread is; the phases of `produce_socket` carry its socket. -/
inductive Master (Socket : Type) where
  | polling
  /-- Between a test of `stop_flag` and `accept`. -/
  | accepting
  | offering (so : Socket)
  | dozing (so : Socket)
  | sleeping (so : Socket)
  | woken (so : Socket)
  /-- Behind the loop, waiting for the workers to exit. -/
  | joining
  | done
  deriving DecidableEq, Repr

/-- `struct mg_context` and its threads. -/
structure Context (W Socket : Type) where
  queue : Fin mgsqlen → Socket
  sqHead : ℕ
  sqTail : ℕ
  stopFlag : ℕ
  master : Master Socket
  workers : W → Worker Socket

/-- What a thread does next. The labels say what becomes of a socket. -/
inductive Event (W Socket : Type) where
  | polls
  | accept (so : Socket)
  | acceptsNone
  | produce (so : Socket) (queued : Bool) (signalled : Option W)
  | masterDozes
  | masterSleeps
  | masterWakes
  | consume (w : W) (got : Option Socket)
  | returns (w : W) (got : Option Socket) (served : Bool)
  | dozes (w : W)
  | sleeps (w : W)
  | wakes (w : W)
  | close (w : W) (so : Socket)
  | stop
  | quit
  | join

/-- The loop that keeps the counters of `consume_socket` small. -/
def wrap (sqHead sqTail : ℕ) : ℕ × ℕ :=
  if mgsqlen < sqTail then wrap (sqHead - mgsqlen) (sqTail - mgsqlen) else (sqHead, sqTail)
termination_by sqTail
decreasing_by exact Nat.sub_lt (Nat.zero_lt_of_lt ‹_›) mgsqlen_pos

namespace Context

variable {W Socket : Type} [DecidableEq W] (ctx : Context W Socket)

/-- A context out of `calloc`, whose workers have just been started. -/
def initial (W : Type) (zero : Socket) : Context W Socket where
  queue _ := zero
  sqHead := 0
  sqTail := 0
  stopFlag := 0
  master := .polling
  workers _ := ⟨.ready, zero⟩

/-- What `consume_socket` does behind its loop: the socket it copies and the queue afterwards. -/
def take : Option Socket × Context W Socket :=
  if ctx.sqTail < ctx.sqHead then
    let counters := wrap ctx.sqHead (ctx.sqTail + 1)
    (some (ctx.queue (Fin.ofNat mgsqlen ctx.sqTail)),
      { ctx with sqHead := counters.1, sqTail := counters.2 })
  else (none, ctx)

/-- There is room for another socket. -/
def HasRoom : Prop := ctx.sqHead - ctx.sqTail < mgsqlen

instance : Decidable ctx.HasRoom := inferInstanceAs (Decidable (_ < _))

/-- What `produce_socket` does behind its loop. -/
def put (so : Socket) : Context W Socket :=
  if ctx.HasRoom then
    { ctx with
      queue := Function.update ctx.queue (Fin.ofNat mgsqlen ctx.sqHead) so
      sqHead := ctx.sqHead + 1 }
  else ctx

/-- The test of the loop in `consume_socket`. -/
def ConsumerWaits : Prop := ctx.sqHead = ctx.sqTail ∧ ctx.stopFlag = 0

/-- The test of the loop in `produce_socket`. -/
def ProducerWaits : Prop := ctx.stopFlag = 0 ∧ ¬ ctx.HasRoom

/-- Nobody holds the mutex: threads that do not doze release it in the step that takes it. -/
def MutexFree : Prop :=
  (∀ w, (ctx.workers w).phase ≠ .dozing) ∧ ∀ so, ctx.master ≠ .dozing so

/-- Change the phase of a worker. -/
def setPhase (w : W) (phase : Phase) : Context W Socket :=
  { ctx with workers := Function.update ctx.workers w { ctx.workers w with phase := phase } }

/-- `pthread_cond_signal(&ctx->sq_full)` wakes a sleeping worker, if there is one. -/
def Signals : Option W → Prop
  | some w => (ctx.workers w).phase = .sleeping
  | none => ∀ w, (ctx.workers w).phase ≠ .sleeping

/-- The effect of the signal. -/
def signalWorker : Option W → Context W Socket
  | some w => ctx.setPhase w .woken
  | none => ctx

/-- `pthread_cond_signal(&ctx->sq_empty)`, which only the master can wait for. -/
def signalMaster : Context W Socket :=
  match ctx.master with
  | .sleeping so => { ctx with master := .woken so }
  | _ => ctx

/-- `pthread_cond_broadcast(&ctx->sq_full)`. -/
def broadcast : Context W Socket :=
  { ctx with
    workers := fun w =>
      if (ctx.workers w).phase = .sleeping then { ctx.workers w with phase := .woken }
      else ctx.workers w }

end Context

variable {W Socket : Type}

open Context in
/-- One step of a thread. -/
inductive Step [DecidableEq W] : Context W Socket → Event W Socket → Context W Socket → Prop
  | polls (ctx : Context W Socket) (polling : ctx.master = .polling)
      (running : ctx.stopFlag = 0) :
    Step ctx .polls { ctx with master := .accepting }
  | accept (ctx : Context W Socket) (so : Socket) (accepting : ctx.master = .accepting) :
    Step ctx (.accept so) { ctx with master := .offering so }
  | acceptsNone (ctx : Context W Socket) (accepting : ctx.master = .accepting) :
    Step ctx .acceptsNone { ctx with master := .polling }
  | produce (ctx : Context W Socket) (so : Socket) (signalled : Option W)
      (offers : ctx.master = .offering so ∨ ctx.master = .woken so) (free : ctx.MutexFree)
      (goes : ¬ ctx.ProducerWaits) (signals : ctx.Signals signalled) :
    Step ctx (.produce so (decide ctx.HasRoom) signalled)
      { (ctx.put so).signalWorker signalled with master := .polling }
  | masterDozes (ctx : Context W Socket) (so : Socket)
      (offers : ctx.master = .offering so ∨ ctx.master = .woken so) (free : ctx.MutexFree)
      (waits : ctx.ProducerWaits) :
    Step ctx .masterDozes { ctx with master := .dozing so }
  | masterSleeps (ctx : Context W Socket) (so : Socket) (dozes : ctx.master = .dozing so) :
    Step ctx .masterSleeps { ctx with master := .sleeping so }
  -- a wait may end without a signal
  | masterWakes (ctx : Context W Socket) (so : Socket) (sleeps : ctx.master = .sleeping so) :
    Step ctx .masterWakes { ctx with master := .woken so }
  | consume (ctx : Context W Socket) (w : W)
      (calls : (ctx.workers w).phase = .ready ∨ (ctx.workers w).phase = .woken)
      (free : ctx.MutexFree) (goes : ¬ ctx.ConsumerWaits) :
    Step ctx (.consume w ctx.take.1)
      { ctx.take.2.signalMaster with
        workers := Function.update ctx.workers w
          ⟨.returning ctx.take.1.isSome, ctx.take.1.getD (ctx.workers w).client⟩ }
  | returns (ctx : Context W Socket) (w : W) (got : Bool)
      (back : (ctx.workers w).phase = .returning got) :
    Step ctx (.returns w (if got then some (ctx.workers w).client else none)
        (decide (ctx.stopFlag = 0)))
      (ctx.setPhase w (if ctx.stopFlag = 0 then .serving else .exited))
  | dozes (ctx : Context W Socket) (w : W)
      (calls : (ctx.workers w).phase = .ready ∨ (ctx.workers w).phase = .woken)
      (free : ctx.MutexFree) (waits : ctx.ConsumerWaits) :
    Step ctx (.dozes w) (ctx.setPhase w .dozing)
  | sleeps (ctx : Context W Socket) (w : W) (dozes : (ctx.workers w).phase = .dozing) :
    Step ctx (.sleeps w) (ctx.setPhase w .sleeping)
  | wakes (ctx : Context W Socket) (w : W) (sleeps : (ctx.workers w).phase = .sleeping) :
    Step ctx (.wakes w) (ctx.setPhase w .woken)
  | close (ctx : Context W Socket) (w : W) (serves : (ctx.workers w).phase = .serving) :
    Step ctx (.close w (ctx.workers w).client) (ctx.setPhase w .ready)
  -- `mg_stop` takes no mutex, and neither does the master for its broadcast
  | stop (ctx : Context W Socket) (running : ctx.stopFlag = 0) :
    Step ctx .stop { ctx with stopFlag := 1 }
  | quit (ctx : Context W Socket) (polling : ctx.master = .polling)
      (stopped : ctx.stopFlag ≠ 0) :
    Step ctx .quit { ctx.broadcast with master := .joining }
  | join (ctx : Context W Socket) (joining : ctx.master = .joining)
      (exited : ∀ w, (ctx.workers w).phase = .exited) :
    Step ctx .join { ctx with master := .done, stopFlag := 2 }

section Queue

variable {ctx : Context W Socket}

/-- The queue as a ring. -/
def Context.ring (ctx : Context W Socket) : RingBuffer mgsqlen Socket :=
  ⟨ctx.queue, ctx.sqHead, ctx.sqTail⟩

/-- The sockets in the queue, in the order of their acceptance. -/
def Context.contents (ctx : Context W Socket) : List Socket := ctx.ring.contents

/-- The loop over the counters keeps the elements of the ring, and ends with a small counter. -/
theorem wrap_ring (ring : RingBuffer mgsqlen Socket) (wellFormed : ring.WellFormed) :
    let counters := wrap ring.head ring.tail
    let wrapped : RingBuffer mgsqlen Socket := ⟨ring.slots, counters.1, counters.2⟩
    wrapped.WellFormed ∧ wrapped.contents = ring.contents ∧ wrapped.tail ≤ mgsqlen := by
  obtain ⟨slots, head, tail⟩ := ring
  dsimp only
  fun_induction wrap head tail with
  | case1 head tail high ih =>
    obtain ⟨ordered, same, small⟩ := ih (wellFormed.rewind high.le)
    exact ⟨ordered, same.trans (RingBuffer.contents_rewind high.le wellFormed.ordered), small⟩
  | case2 head tail low => exact ⟨wellFormed, rfl, Nat.le_of_not_lt low⟩

/-- Taking from a queue with sockets in it. -/
theorem take_of_lt (wellFormed : ctx.ring.WellFormed) (nonempty : ctx.sqTail < ctx.sqHead) :
    ∃ so, ctx.take.1 = some so ∧ ctx.contents = so :: ctx.take.2.contents ∧
      ctx.take.2.ring.WellFormed ∧ ctx.take.2.sqTail ≤ mgsqlen := by
  obtain ⟨popped, same, small⟩ := wrap_ring ctx.ring.pop (wellFormed.pop nonempty)
  refine ⟨ctx.queue (Fin.ofNat mgsqlen ctx.sqTail), ?_, ?_, ?_, ?_⟩ <;>
    rw [Context.take, if_pos nonempty]
  · exact (RingBuffer.contents_pop nonempty).trans (congrArg _ same.symm)
  · exact popped
  · exact small

theorem take_of_le (empty : ctx.sqHead ≤ ctx.sqTail) : ctx.take = (none, ctx) :=
  if_neg (Nat.not_lt.mpr empty)

/-- Nothing but the queue is changed. -/
theorem take_frame (ctx : Context W Socket) :
    ctx.take.2.master = ctx.master ∧ ctx.take.2.workers = ctx.workers ∧
      ctx.take.2.stopFlag = ctx.stopFlag := by
  rw [Context.take]
  split <;> exact ⟨rfl, rfl, rfl⟩

/-- Putting into a queue that is not full. -/
theorem put_of_hasRoom (wellFormed : ctx.ring.WellFormed) (room : ctx.HasRoom) (so : Socket) :
    (ctx.put so).ring.WellFormed ∧ (ctx.put so).contents = ctx.contents ++ [so] ∧
      (ctx.put so).sqHead = ctx.sqHead + 1 := by
  have ordered := wellFormed.ordered
  have below : ctx.ring.head < ctx.ring.tail + mgsqlen := by
    change ctx.sqHead < ctx.sqTail + mgsqlen
    have : ctx.sqHead - ctx.sqTail < mgsqlen := room
    omega
  rw [Context.put, if_pos room]
  exact ⟨wellFormed.push below so, RingBuffer.contents_push wellFormed below so, rfl⟩

theorem put_frame (ctx : Context W Socket) (so : Socket) :
    (ctx.put so).master = ctx.master ∧ (ctx.put so).workers = ctx.workers ∧
      (ctx.put so).stopFlag = ctx.stopFlag ∧ (ctx.put so).sqTail = ctx.sqTail := by
  rw [Context.put]
  split <;> exact ⟨rfl, rfl, rfl, rfl⟩

end Queue

end SocketQueue

end FlowRetrieval
