/-
# Parallel loops over a byte memory

The iterations of a loop are spread over threads. Each iteration loads its operands one after the
other, computes a byte and stores it, and the loads and stores of the iterations interleave in any
way. If no iteration loads what another one stores, every schedule ends, and all of them end with
the memory that the iterations leave when they run one after the other.

Reductions are spread over threads in the same way: each thread combines the values of its own
iterations, and the results of the threads are combined in the end.

## Main results

* `Loop.Step.rank_lt` — every step leaves less to do, so every schedule ends
* `Loop.Invariant.exists_step` — and it ends only when all iterations are done
* `Loop.finishes_iff` — then the memory is the one that the loop leaves in order
* `reduce_eq` — a reduction does not depend on how the iterations are spread
-/
import Mathlib.Algebra.BigOperators.Intervals
import Mathlib.Algebra.Order.BigOperators.Group.Finset
import FlowRetrieval.CS.ByteMemory
import FlowRetrieval.CS.Transition

namespace CS

open Transition

variable {capacity : ℕ}

/-- Memories with the same bytes are the same. -/
theorem ByteMemory.ext_load {first second : ByteMemory capacity}
    (same : ∀ address, first.load address = second.load address) : first = second := by
  funext i
  have byte := same i
  rwa [load, load, dif_pos i.isLt, dif_pos i.isLt] at byte

/-- A loop each of whose iterations stores one byte, computed from its operands. -/
structure Loop (capacity : ℕ) where
  count : ℕ
  operands : ℕ → List (ByteMemory capacity → UInt8)
  value : List UInt8 → UInt8
  target : ℕ → ℕ

namespace Loop

/-- Where an iteration is: it has loaded some of its operands, or it is done. -/
inductive Progress where
  | loading (values : List UInt8)
  | done

/-- The memory and the iterations. -/
structure State (capacity : ℕ) where
  memory : ByteMemory capacity
  progress : ℕ → Progress

def start (memory : ByteMemory capacity) : State capacity := ⟨memory, fun _ => .loading []⟩

variable (loop : Loop capacity)

/-- A load or a store of an iteration, which is on its thread at this time. -/
inductive Step : State capacity → ℕ → State capacity → Prop
  | load (s : State capacity) (k : ℕ) (values : List UInt8) (read : ByteMemory capacity → UInt8)
      (inside : k < loop.count) (loading : s.progress k = .loading values)
      (next : (loop.operands k)[values.length]? = some read) :
    Step s k { s with
      progress := Function.update s.progress k (.loading (values ++ [read s.memory])) }
  | store (s : State capacity) (k : ℕ) (values : List UInt8)
      (inside : k < loop.count) (loading : s.progress k = .loading values)
      (complete : values.length = (loop.operands k).length) :
    Step s k ⟨s.memory.store (loop.target k) (loop.value values),
      Function.update s.progress k .done⟩

/-- All iterations are done. -/
def Done (s : State capacity) : Prop := ∀ k < loop.count, s.progress k = .done

/-- A schedule of the loop leads from one memory to the other. -/
def Finishes (memory last : ByteMemory capacity) : Prop :=
  ∃ schedule s, Run loop.Step (start memory) schedule s ∧ loop.Done s ∧ s.memory = last

/-- No iteration stores where another one does, or loads what another one stores. -/
structure Independent : Prop where
  targets : ∀ j < loop.count, ∀ k < loop.count, loop.target j = loop.target k → j = k
  operands : ∀ k < loop.count, ∀ read ∈ loop.operands k, ∀ first second : ByteMemory capacity,
    (∀ address, (∀ j < loop.count, j ≠ k → loop.target j ≠ address) →
      first.load address = second.load address) → read first = read second

section Ends

/-- How much an iteration still has to do. -/
def remaining (s : State capacity) (k : ℕ) : ℕ :=
  match s.progress k with
  | .loading values => (loop.operands k).length - values.length + 1
  | .done => 0

/-- How much is still to do. -/
def rank (s : State capacity) : ℕ := ∑ k ∈ Finset.range loop.count, loop.remaining s k

variable {loop} {s t : State capacity} {k : ℕ}

theorem Step.remaining_lt (step : loop.Step s k t) : loop.remaining t k < loop.remaining s k := by
  cases step with
  | load values read inside loading next =>
    have more := (List.getElem?_eq_some_iff.mp next).1
    simp only [remaining, Function.update_self, loading, List.length_append,
      List.length_singleton]
    omega
  | store values inside loading complete =>
    simp only [remaining, Function.update_self, loading]
    omega

theorem Step.progress_of_ne (step : loop.Step s k t) {j : ℕ} (other : j ≠ k) :
    t.progress j = s.progress j := by
  cases step <;> exact Function.update_of_ne other _ _

theorem Step.inside (step : loop.Step s k t) : k < loop.count := by
  cases step <;> assumption

/-- Every step leaves less to do. -/
theorem Step.rank_lt (step : loop.Step s k t) : loop.rank t < loop.rank s := by
  refine Finset.sum_lt_sum (fun j _ => ?_) ⟨k, Finset.mem_range.mpr step.inside, step.remaining_lt⟩
  by_cases same : j = k
  · rw [same]
    exact step.remaining_lt.le
  · rw [remaining, remaining, step.progress_of_ne same]

end Ends

section Outcome

variable (memory : ByteMemory capacity)

/-- The byte that an iteration computes from the memory before the loop. -/
def computed (k : ℕ) : UInt8 := loop.value ((loop.operands k).map fun read => read memory)

/-- The iterations have loaded what was there before the loop, those that are done have stored
what they compute, and nothing else has changed. -/
structure Invariant (s : State capacity) : Prop where
  loaded : ∀ k < loop.count, ∀ values, s.progress k = .loading values →
    values <+: (loop.operands k).map fun read => read memory
  stored : ∀ k < loop.count, s.progress k = .done → loop.target k < capacity →
    s.memory.load (loop.target k) = loop.computed memory k
  untouched : ∀ address, (∀ k < loop.count, s.progress k = .done → loop.target k ≠ address) →
    s.memory.load address = memory.load address

theorem invariant_start : loop.Invariant memory (start memory) where
  loaded k _ values loading := by
    cases loading
    exact List.nil_prefix
  stored k _ finished := by cases finished
  untouched _ _ := rfl

variable {loop} {memory} {s t : State capacity} {k : ℕ}

/-- An iteration loads what was there before the loop. -/
theorem Invariant.load (invariant : loop.Invariant memory s) (independent : loop.Independent)
    {values : List UInt8} (inside : k < loop.count) (loading : s.progress k = .loading values)
    {read : ByteMemory capacity → UInt8} (operand : read ∈ loop.operands k) :
    read s.memory = read memory := by
  refine independent.operands k inside read operand _ _ fun address foreign => ?_
  refine invariant.untouched address fun j small finished => foreign j small ?_
  rintro rfl
  rw [loading] at finished
  cases finished

theorem Invariant.step (invariant : loop.Invariant memory s) (independent : loop.Independent)
    (step : loop.Step s k t) : loop.Invariant memory t := by
  have others {j : ℕ} (other : j ≠ k) := step.progress_of_ne other
  cases step with
  | load values read inside loading next =>
    have done {j : ℕ} (finished : s.progress j = .done) : j ≠ k := by
      rintro rfl
      rw [loading] at finished
      cases finished
    refine ⟨fun j small more loaded => ?_, fun j small finished => ?_, fun address foreign =>
      invariant.untouched address fun j small finished =>
        foreign j small ((others (done finished)).trans finished)⟩
    · by_cases here : j = k
      · subst here
        simp only [Function.update_self, Progress.loading.injEq] at loaded
        rw [← loaded, invariant.load independent inside loading (List.mem_of_getElem? next),
          List.prefix_iff_eq_take, List.length_append, List.length_singleton, List.take_add_one,
          List.getElem?_map, next,
          ← List.prefix_iff_eq_take.mp (invariant.loaded j inside values loading)]
        rfl
      · rw [others here] at loaded
        exact invariant.loaded j small more loaded
    · by_cases here : j = k
      · simp [here] at finished
      · rw [others here] at finished
        exact invariant.stored j small finished
  | store values inside loading complete =>
    have whole : values = (loop.operands k).map fun read => read memory :=
      (invariant.loaded k inside values loading).eq_of_length (by rw [complete, List.length_map])
    refine ⟨fun j small more loaded => ?_, fun j small finished fits => ?_,
      fun address foreign => ?_⟩
    · by_cases here : j = k
      · simp [here] at loaded
      · rw [others here] at loaded
        exact invariant.loaded j small more loaded
    · by_cases here : j = k
      · rw [here, ByteMemory.load_store_self _ _ (here ▸ fits), whole, computed]
      · rw [others here] at finished
        rw [ByteMemory.load_store_of_ne _ _ fun same =>
          here (independent.targets j small k inside same)]
        exact invariant.stored j small finished fits
    · have mine : loop.target k ≠ address := foreign k inside (Function.update_self _ _ _)
      rw [ByteMemory.load_store_of_ne _ _ mine.symm]
      refine invariant.untouched address fun j small finished => ?_
      by_cases here : j = k
      · rwa [here]
      · exact foreign j small ((others here).trans finished)

/-- While not all iterations are done, there is a next step. -/
theorem Invariant.exists_step (invariant : loop.Invariant memory s) (more : ¬ loop.Done s) :
    ∃ k t, loop.Step s k t := by
  rw [Done] at more
  push Not at more
  obtain ⟨k, inside, unfinished⟩ := more
  cases loading : s.progress k with
  | done => exact absurd loading unfinished
  | loading values =>
    have short := (invariant.loaded k inside values loading).length_le
    rw [List.length_map] at short
    rcases Nat.lt_or_eq_of_le short with less | complete
    · exact ⟨k, _, .load s k values _ inside loading (List.getElem?_eq_getElem less)⟩
    · exact ⟨k, _, .store s k values inside loading complete⟩

/-- From everywhere on the way some schedule leads to the end. -/
theorem Invariant.exists_run (invariant : loop.Invariant memory s)
    (independent : loop.Independent) :
    ∃ schedule t, Run loop.Step s schedule t ∧ loop.Done t := by
  induction left : loop.rank s using Nat.strong_induction_on generalizing s with
  | _ rank ih =>
    by_cases finished : loop.Done s
    · exact ⟨[], s, .nil s, finished⟩
    · obtain ⟨k, t, step⟩ := invariant.exists_step finished
      obtain ⟨schedule, last, run, done⟩ := ih _ (left ▸ step.rank_lt)
        (invariant.step independent step) rfl
      exact ⟨k :: schedule, last, .cons step run, done⟩

/-- When all iterations are done, the memory is determined. -/
theorem Invariant.memory_eq (invariant : loop.Invariant memory s) (finished : loop.Done s)
    {last : ByteMemory capacity}
    (stored : ∀ k < loop.count, loop.target k < capacity →
      last.load (loop.target k) = loop.computed memory k)
    (untouched : ∀ address, (∀ k < loop.count, loop.target k ≠ address) →
      last.load address = memory.load address) : s.memory = last := by
  refine ByteMemory.ext_load fun address => ?_
  by_cases swept : ∃ k < loop.count, loop.target k = address
  · obtain ⟨k, inside, rfl⟩ := swept
    by_cases fits : loop.target k < capacity
    · rw [invariant.stored k inside (finished k inside) fits, stored k inside fits]
    · rw [ByteMemory.load_of_ge _ (not_lt.mp fits), ByteMemory.load_of_ge _ (not_lt.mp fits)]
  · push Not at swept
    rw [untouched address swept, invariant.untouched address fun k inside _ => swept k inside]

end Outcome

/-- Every schedule of a loop with independent iterations ends with the memory that the iterations
leave when they run one after the other, and there is such a schedule. -/
theorem finishes_iff {loop : Loop capacity} (independent : loop.Independent)
    {write : ByteMemory capacity → ℕ → UInt8} {first : ℕ}
    (target : ∀ k < loop.count, loop.target k = first + k)
    (computed : ∀ memory, ∀ k < loop.count, loop.computed memory k = write memory k)
    {memory last : ByteMemory capacity} :
    loop.Finishes memory last ↔ last = memory.sweep write first loop.count := by
  have outcome {s : State capacity} (invariant : loop.Invariant memory s) (done : loop.Done s) :
      s.memory = memory.sweep write first loop.count := by
    refine invariant.memory_eq done (fun k inside fits => ?_) fun address foreign => ?_
    · rw [target k inside] at fits ⊢
      rw [computed memory k inside]
      refine ByteMemory.load_sweep write first _ memory (fun j small other outside => ?_) inside
        fits
      rw [← computed other j small, ← computed memory j small, Loop.computed, Loop.computed]
      congr 1
      refine List.map_congr_left fun read operand => ?_
      refine independent.operands j small read operand _ _ fun address foreign => outside _ ?_
      -- what the earlier steps have stored are targets of other iterations
      rintro ⟨low, high⟩
      refine foreign (address - first) (by omega) (by omega) ?_
      rw [target _ (by omega)]
      omega
    · refine ByteMemory.load_sweep_of_notMem write first _ memory ?_
      rintro ⟨low, high⟩
      refine foreign (address - first) (by omega) ?_
      rw [target _ (by omega)]
      omega
  have kept {s t : State capacity} {schedule : List ℕ} (run : Run loop.Step s schedule t)
      (invariant : loop.Invariant memory s) : loop.Invariant memory t :=
    run.invariant invariant fun _ _ _ step invariant => invariant.step independent step
  have begun := loop.invariant_start memory
  constructor
  · rintro ⟨schedule, s, run, done, rfl⟩
    exact outcome (kept run begun) done
  · rintro rfl
    obtain ⟨schedule, s, run, done⟩ := begun.exists_run independent
    exact ⟨schedule, s, run, done, outcome (kept run begun) done⟩

/-- Parallel loops one after the other: each starts when all iterations of the one before it are
done. -/
def InOrder : List (Loop capacity) → ByteMemory capacity → ByteMemory capacity → Prop
  | [], memory, last => last = memory
  | loop :: loops, memory, last => ∃ next, loop.Finishes memory next ∧ InOrder loops next last

theorem inOrder_append {first second : List (Loop capacity)} {memory last : ByteMemory capacity} :
    InOrder (first ++ second) memory last ↔
      ∃ next, InOrder first memory next ∧ InOrder second next last := by
  induction first generalizing memory with
  | nil => simp [InOrder]
  | cons loop first ih =>
    simp only [List.cons_append, InOrder, ih]
    constructor
    · rintro ⟨next, finishes, middle, before, after⟩
      exact ⟨middle, ⟨next, finishes, before⟩, after⟩
    · rintro ⟨middle, ⟨next, finishes, before⟩, after⟩
      exact ⟨next, finishes, middle, before, after⟩

theorem inOrder_singleton {loop : Loop capacity} {memory last : ByteMemory capacity} :
    InOrder [loop] memory last ↔ loop.Finishes memory last := by
  simp [InOrder]

/-- Sequences of loops each of which does what a function does do what the functions do. -/
theorem inOrder_flatMap_iff {β : Type*} {loops : β → List (Loop capacity)}
    {effect : ByteMemory capacity → β → ByteMemory capacity} {items : List β}
    (each : ∀ item ∈ items, ∀ memory last,
      InOrder (loops item) memory last ↔ last = effect memory item)
    {memory last : ByteMemory capacity} :
    InOrder (items.flatMap loops) memory last ↔ last = items.foldl effect memory := by
  induction items generalizing memory with
  | nil => rfl
  | cons item items ih =>
    rw [List.forall_mem_cons] at each
    rw [List.flatMap_cons, inOrder_append, List.foldl_cons, ← ih each.2]
    constructor
    · rintro ⟨next, before, after⟩
      rwa [← (each.1 memory next).mp before]
    · exact fun after => ⟨_, (each.1 memory _).mpr rfl, after⟩

end Loop

section Reduction

variable {α : Type*} (op : α → α → α) [Std.Associative op] [Std.Commutative op] {unit : α}

/-- A reduction over threads, each of which goes through its own iterations: however these are
spread, the result is that of one thread that goes through all of them. -/
theorem reduce_eq (neutral : ∀ a, op unit a = a) {step : α → ℕ → α} {value : ℕ → α}
    (adds : ∀ acc k, step acc k = op acc (value k)) {threads : List (List ℕ)} {iterations : List ℕ}
    (spread : threads.flatten.Perm iterations) :
    (threads.map fun thread => thread.foldl step unit).foldl op unit =
      iterations.foldl step unit := by
  have assoc := ‹Std.Associative op›.assoc
  have comm := ‹Std.Commutative op›.comm
  have steps (acc : α) (ks : List ℕ) : ks.foldl step acc = op acc (ks.foldl step unit) := by
    induction ks generalizing acc with
    | nil => rw [List.foldl_nil, List.foldl_nil, comm, neutral]
    | cons k ks ih =>
      rw [List.foldl_cons, List.foldl_cons, ih, ih (step unit k), adds, adds, neutral, assoc]
  have whole : (threads.map fun thread => thread.foldl step unit).foldl op unit =
      threads.flatten.foldl step unit := by
    suffices all : ∀ acc, (threads.map fun thread => thread.foldl step unit).foldl op acc =
        threads.flatten.foldl step acc from all unit
    clear spread
    induction threads with
    | nil => exact fun _ => rfl
    | cons thread threads ih =>
      intro acc
      rw [List.map_cons, List.foldl_cons, ih, List.flatten_cons, List.foldl_append,
        steps acc thread]
  rw [whole]
  refine spread.foldl_eq' (fun j _ k _ acc => ?_) unit
  rw [adds, adds, adds, adds, assoc, assoc, comm (value j)]

end Reduction

end CS
