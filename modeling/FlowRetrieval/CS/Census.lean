/-
# Counting over the threads of a system

What the threads of a system contribute to a sum, before and after one of them takes a step.
-/
import Mathlib.Algebra.BigOperators.Group.Finset.Basic
import Mathlib.Algebra.Order.BigOperators.Group.Finset

namespace CS.Census

variable {ι Thread M : Type*} [Fintype ι]

/-- The sum changes by what the thread that takes a step contributes. -/
theorem sum_update [DecidableEq ι] [AddCommMonoid M] (contribution : Thread → M)
    (threads : ι → Thread) (i : ι) (thread : Thread) :
    ∑ j, contribution (Function.update threads i thread j) + contribution (threads i) =
      ∑ j, contribution (threads j) + contribution thread := by
  have others : ∑ j ∈ Finset.univ.erase i, contribution (Function.update threads i thread j) =
      ∑ j ∈ Finset.univ.erase i, contribution (threads j) :=
    Finset.sum_congr rfl fun j other =>
      congrArg contribution (Function.update_of_ne (Finset.ne_of_mem_erase other) _ _)
  rw [← Finset.add_sum_erase _ _ (Finset.mem_univ i), others, Function.update_self,
    ← Finset.add_sum_erase _ (fun j => contribution (threads j)) (Finset.mem_univ i)]
  ac_rfl

/-- A positive sum has a thread that contributes. -/
theorem exists_of_sum_pos {contribution : Thread → ℕ} {threads : ι → Thread}
    (positive : 0 < ∑ i, contribution (threads i)) : ∃ i, 0 < contribution (threads i) := by
  obtain ⟨i, -, contributes⟩ := Finset.exists_ne_zero_of_sum_ne_zero positive.ne'
  exact ⟨i, Nat.pos_of_ne_zero contributes⟩

end CS.Census
