import Mathlib.Algebra.BigOperators.Group.Finset.Basic
import Mathlib.Algebra.Order.BigOperators.Group.Finset
import Mathlib.Data.Fintype.Basic
import Mathlib.Tactic.Abel

/-! # Sums over a table

What the places of a finite table weigh together, when one place changes.
-/

namespace GiantCore.Foundation.Tally

variable {ι β M : Type*} [Fintype ι] [DecidableEq ι] [AddCommMonoid M]

/-- What all places weigh. -/
def total (weight : β → M) (table : ι → β) : M := ∑ place, weight (table place)

/-- **One place changes.** -/
theorem total_update (weight : β → M) (table : ι → β) (place : ι) (value : β) :
    total weight (Function.update table place value) + weight (table place) =
      total weight table + weight value := by
  have split (other : ι → β) : total weight other =
      weight (other place) + ∑ rest ∈ Finset.univ.erase place, weight (other rest) :=
    (Finset.add_sum_erase _ _ (Finset.mem_univ place)).symm
  have same : ∑ rest ∈ Finset.univ.erase place, weight (Function.update table place value rest) =
      ∑ rest ∈ Finset.univ.erase place, weight (table rest) := by
    refine Finset.sum_congr rfl fun rest member => ?_
    rw [Function.update_of_ne (Finset.ne_of_mem_erase member)]
  rw [split, split table, same, Function.update_self]
  abel

/-- A place without weight takes a value. -/
theorem total_update_of_zero {weight : β → M} {table : ι → β} {place : ι}
    (nothing : weight (table place) = 0) (value : β) :
    total weight (Function.update table place value) = total weight table + weight value := by
  have changed := total_update weight table place value
  rwa [nothing, add_zero] at changed

/-- A place gives up its weight. -/
theorem total_update_to_zero {weight : β → M} (table : ι → β) (place : ι) {value : β}
    (nothing : weight value = 0) :
    total weight (Function.update table place value) + weight (table place) =
      total weight table := by
  rw [total_update, nothing, add_zero]

omit [DecidableEq ι] in
theorem total_congr {weight : β → M} {table other : ι → β}
    (same : ∀ place, weight (table place) = weight (other place)) :
    total weight table = total weight other :=
  Finset.sum_congr rfl fun place _ => same place

omit [DecidableEq ι] in
/-- Where the table weighs nothing, no place does. -/
theorem eq_zero_of_total [PartialOrder M] [CanonicallyOrderedAdd M] [IsOrderedAddMonoid M]
    {weight : β → M} {table : ι → β} (nothing : total weight table = 0) (place : ι) :
    weight (table place) = 0 :=
  Finset.sum_eq_zero_iff.mp nothing place (Finset.mem_univ place)

end GiantCore.Foundation.Tally
