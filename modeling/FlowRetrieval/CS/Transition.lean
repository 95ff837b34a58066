/-
# Runs of labelled transition systems

A run follows a list of labels from one state to another. A property that every
step keeps holds at the end of every run that starts with it. A system whose steps are runs of
another one, under an abstraction of its states and labels, has only runs of that one. Where
every step takes something in or gives something out and keeps the balance, so does every run: in
order, as in a queue, or only counted. Where every step lowers a rank, the rank bounds the length
of a run.
-/
import Mathlib.Algebra.Order.Group.Multiset

namespace CS.Transition

variable {State Label : Type} {step : State → Label → State → Prop}

/-- A run from one state to another along a list of labels. -/
inductive Run (step : State → Label → State → Prop) : State → List Label → State → Prop
  | nil (s : State) : Run step s [] s
  | cons {s t u : State} {label : Label} {labels : List Label} (head : step s label t)
      (tail : Run step t labels u) : Run step s (label :: labels) u

theorem Run.append {s t u : State} {first second : List Label} (run : Run step s first t)
    (later : Run step t second u) : Run step s (first ++ second) u := by
  induction run with
  | nil => exact later
  | cons head _ ih => exact .cons head (ih later)

theorem Run.of_step {s t : State} {label : Label} (head : step s label t) :
    Run step s [label] t := .cons head (.nil t)

/-- A run is a run of every system with more steps. -/
theorem Run.imp {other : State → Label → State → Prop} {s t : State} {labels : List Label}
    (run : Run step s labels t) (more : ∀ s label t, step s label t → other s label t) :
    Run other s labels t := by
  induction run with
  | nil s => exact .nil s
  | cons head _ ih => exact .cons (more _ _ _ head) ih

/-- What every step keeps, a run keeps. -/
theorem Run.invariant {property : State → Prop} {s t : State} {labels : List Label}
    (run : Run step s labels t) (start : property s)
    (preserved : ∀ s label t, step s label t → property s → property t) : property t := by
  induction run with
  | nil => exact start
  | cons head _ ih => exact ih (preserved _ _ _ head start)

/-- The labels of a run are the labels of its steps. -/
theorem Run.labelled {s t : State} {labels : List Label} (run : Run step s labels t) :
    Run (fun s label t => step s label t ∧ label ∈ labels) s labels t := by
  induction run with
  | nil s => exact .nil s
  | cons head _ ih =>
    exact .cons ⟨head, List.mem_cons_self⟩ (ih.imp fun _ _ _ step =>
      ⟨step.1, List.mem_cons_of_mem _ step.2⟩)

/-- What is true of the label of every step, where a property is kept, is true of every label. -/
theorem Run.forall_label {property : State → Prop} {allowed : Label → Prop} {s t : State}
    {labels : List Label} (run : Run step s labels t) (start : property s)
    (preserved : ∀ s label t, step s label t → property s → property t)
    (labelled : ∀ s label t, step s label t → property s → allowed label) :
    ∀ label ∈ labels, allowed label := by
  induction run with
  | nil => exact fun _ none => by cases none
  | cons head _ ih =>
    rw [List.forall_mem_cons]
    exact ⟨labelled _ _ _ head start, ih (preserved _ _ _ head start)⟩

/-- What every step does in terms of another system, a run does. -/
theorem Run.simulate {Abstract Observed : Type}
    {observedStep : Abstract → Observed → Abstract → Prop} {abstraction : State → Abstract}
    {observed : Label → List Observed} {property : State → Prop} {s t : State}
    {labels : List Label} (run : Run step s labels t) (start : property s)
    (preserved : ∀ s label t, step s label t → property s → property t)
    (simulated : ∀ s label t, step s label t → property s →
      Run observedStep (abstraction s) (observed label) (abstraction t)) :
    Run observedStep (abstraction s) (labels.flatMap observed) (abstraction t) := by
  induction run with
  | nil => exact .nil _
  | cons head _ ih =>
    rw [List.flatMap_cons]
    exact (simulated _ _ _ head start).append (ih (preserved _ _ _ head start))

section Balance

variable {property : State → Prop} {s t : State} {labels : List Label}

/-- A queue that each step takes from at the front and adds to at the back. -/
theorem Run.queue {α : Type*} {contents : State → List α} {added taken : Label → List α}
    (run : Run step s labels t) (start : property s)
    (preserved : ∀ s label t, step s label t → property s → property t)
    (balance : ∀ s label t, step s label t → property s →
      contents s ++ added label = taken label ++ contents t) :
    contents s ++ labels.flatMap added = labels.flatMap taken ++ contents t := by
  induction run with
  | nil => simp
  | cons head _ ih =>
    have rest := ih (preserved _ _ _ head start)
    rw [List.flatMap_cons, List.flatMap_cons, ← List.append_assoc, balance _ _ _ head start,
      List.append_assoc, rest, List.append_assoc]

/-- A stock that each step adds to and takes from. -/
theorem Run.stock {α : Type*} {amount : State → Multiset α} {added taken : Label → List α}
    (run : Run step s labels t) (start : property s)
    (preserved : ∀ s label t, step s label t → property s → property t)
    (balance : ∀ s label t, step s label t → property s →
      amount s + (added label : Multiset α) = (taken label : Multiset α) + amount t) :
    amount s + (labels.flatMap added : List α) = (labels.flatMap taken : List α) + amount t := by
  induction run with
  | nil => exact add_comm _ _
  | cons head _ ih =>
    have rest := ih (preserved _ _ _ head start)
    rw [List.flatMap_cons, List.flatMap_cons, ← Multiset.coe_add, ← Multiset.coe_add, ← add_assoc,
      balance _ _ _ head start, add_assoc, rest, add_assoc]

/-- A rank that each step lowers bounds the length of a run. -/
theorem Run.length_le (rank : State → ℕ) (run : Run step s labels t) (start : property s)
    (preserved : ∀ s label t, step s label t → property s → property t)
    (lowers : ∀ s label t, step s label t → property s → rank t < rank s) :
    labels.length + rank t ≤ rank s := by
  induction run with
  | nil => exact (Nat.zero_add _).le
  | cons head _ ih =>
    have rest := ih (preserved _ _ _ head start)
    have lower := lowers _ _ _ head start
    rw [List.length_cons]
    omega

end Balance

/-- A run whose steps all meet a condition. -/
def RunWith (step : State → Label → State → Prop) (condition : State → Label → Prop) :
    State → List Label → State → Prop :=
  Run fun s label t => step s label t ∧ condition s label

end CS.Transition
