/-
  Foundation/Counting.lean --- occurrences in a finite family of containers.

  A resource held in one of several containers is counted by a sum over the
  containers.  The single rule below says how that sum moves when one container
  is replaced; levels of a queue and queues of a machine both use it.

  Nothing in this file mentions the kernel.
-/
import Mathlib.Algebra.BigOperators.Group.Finset.Piecewise
import Mathlib.Data.Fintype.Basic

set_option autoImplicit false

namespace Bazzulto.Foundation

open Function

variable {ι β : Type*} [Fintype ι] [DecidableEq ι]

/-- Replacing one container moves the total by the difference of the two. -/
theorem sum_update_add (family : ι → β) (measure : β → Nat) (i : ι) (new : β) :
    (∑ j, measure (update family i new j)) + measure (family i) =
      (∑ j, measure (family j)) + measure new := by
  have hcomp : (fun j => measure (update family i new j)) =
      update (fun j => measure (family j)) i (measure new) := by
    funext j
    obtain rfl | hj := eq_or_ne j i
    · simp
    · simp [hj]
  rw [hcomp, Finset.sum_update_of_mem (Finset.mem_univ i),
    ← Finset.add_sum_erase _ _ (Finset.mem_univ i), Finset.sdiff_singleton_eq_erase]
  omega

end Bazzulto.Foundation
