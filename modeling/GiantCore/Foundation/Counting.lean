import Mathlib.Data.List.Nodup
import Mathlib.Logic.Function.Basic
import Mathlib.Tactic.Common

/-! # Counting the places of a table

How many places of a table pass a test, when one place changes. The places are a list without
repetitions.
-/

namespace GiantCore.Foundation.Counting

variable {ι β : Type*} [DecidableEq ι]

/-- One for a place that counts. -/
def one (test : Bool) : Nat := if test then 1 else 0

theorem countP_update_of_notMem {places : List ι} {place : ι} (absent : place ∉ places)
    (table : ι → β) (value : β) (test : β → Bool) :
    places.countP (fun other => test (Function.update table place value other)) =
      places.countP fun other => test (table other) := by
  refine List.countP_congr fun other member => ?_
  rw [Function.update_of_ne]
  rintro rfl
  exact absent member

/-- **One place changes.** -/
theorem countP_update {places : List ι} (nodup : places.Nodup) {place : ι} (member : place ∈ places)
    (table : ι → β) (value : β) (test : β → Bool) :
    places.countP (fun other => test (Function.update table place value other)) +
        one (test (table place)) =
      places.countP (fun other => test (table other)) + one (test value) := by
  induction places with
  | nil => cases member
  | cons first rest ih =>
      obtain ⟨absent, rest_nodup⟩ := List.nodup_cons.mp nodup
      rw [List.countP_cons, List.countP_cons]
      by_cases here : place = first
      · subst here
        rw [countP_update_of_notMem absent, Function.update_self]
        unfold one
        omega
      · have inside : place ∈ rest := (List.mem_cons.mp member).resolve_left here
        have others := ih rest_nodup inside
        rw [Function.update_of_ne (Ne.symm here)]
        omega

end GiantCore.Foundation.Counting
