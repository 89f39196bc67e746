import Mathlib.Order.Lattice
import Mathlib.Tactic.Common

/-! # Running maxima

The loop that keeps the first item with the strictly highest score among the
eligible items of a list, starting from a given score and no item. The facts
below say what the loop returns without looking at the order of the items:
thresholds below the result are the ones some eligible item exceeds.
-/

namespace GiantCore.Foundation.RunningMax

variable {α β : Type*} [LinearOrder β] (eligible : α → Bool) (score : α → β)

/-- The best score and item so far, after the items of a list. -/
def scan : β × Option α → List α → β × Option α
  | best, [] => best
  | best, item :: rest =>
      if score item > best.1 && eligible item then scan (score item, some item) rest
      else scan best rest

/-- Every eligible item stays at or below the result, and so does the start. -/
theorem le_scan (best : β × Option α) (items : List α) :
    best.1 ≤ (scan eligible score best items).1 ∧
      ∀ item ∈ items, eligible item = true →
        score item ≤ (scan eligible score best items).1 := by
  induction items generalizing best with
  | nil => exact ⟨le_refl _, by simp⟩
  | cons first rest ih =>
      unfold scan
      split
      · rename_i better
        rw [Bool.and_eq_true, decide_eq_true_eq] at better
        obtain ⟨above, others⟩ := ih (score first, some first)
        refine ⟨le_trans (le_of_lt better.1) above, fun item member fits => ?_⟩
        rcases List.mem_cons.mp member with rfl | inside
        · exact above
        · exact others item inside fits
      · rename_i worse
        obtain ⟨above, others⟩ := ih best
        refine ⟨above, fun item member fits => ?_⟩
        rcases List.mem_cons.mp member with rfl | inside
        · rw [Bool.and_eq_true, decide_eq_true_eq, not_and] at worse
          exact le_trans (not_lt.mp fun higher => worse higher fits) above
        · exact others item inside fits

theorem score_le_scan (best : β × Option α) {items : List α} {item : α} (member : item ∈ items)
    (fits : eligible item = true) : score item ≤ (scan eligible score best items).1 :=
  (le_scan eligible score best items).2 item member fits

/-- The result is the start, or an eligible item above it. -/
theorem scan_cases (best : β × Option α) (items : List α) :
    scan eligible score best items = best ∨
      ∃ item ∈ items, eligible item = true ∧ best.1 < score item ∧
        scan eligible score best items = (score item, some item) := by
  induction items generalizing best with
  | nil => exact Or.inl rfl
  | cons first rest ih =>
      unfold scan
      split
      · rename_i better
        rw [Bool.and_eq_true, decide_eq_true_eq] at better
        right
        rcases ih (score first, some first) with same | ⟨item, member, fits, above, found⟩
        · exact ⟨first, List.mem_cons_self, better.2, better.1, same⟩
        · exact ⟨item, List.mem_cons_of_mem _ member, fits, lt_trans better.1 above, found⟩
      · rcases ih best with same | ⟨item, member, fits, above, found⟩
        · exact Or.inl same
        · exact Or.inr ⟨item, List.mem_cons_of_mem _ member, fits, above, found⟩

/-- **The threshold rule.** The result exceeds a threshold at or above the start
exactly when some eligible item does. -/
theorem lt_scan_iff (best : β × Option α) {threshold : β} (start : best.1 ≤ threshold)
    (items : List α) :
    threshold < (scan eligible score best items).1 ↔
      ∃ item ∈ items, eligible item = true ∧ threshold < score item := by
  constructor
  · intro above
    rcases scan_cases eligible score best items with same | ⟨item, member, fits, -, found⟩
    · rw [same] at above
      exact (not_lt.mpr start above).elim
    · rw [found] at above
      exact ⟨item, member, fits, above⟩
  · intro ⟨item, member, fits, above⟩
    exact lt_of_lt_of_le above (score_le_scan eligible score best member fits)

/-- The result stays below a bound exactly when the start and every eligible item
do. -/
theorem scan_lt_iff (best : β × Option α) (bound : β) (items : List α) :
    (scan eligible score best items).1 < bound ↔
      best.1 < bound ∧ ∀ item ∈ items, eligible item = true → score item < bound := by
  constructor
  · intro below
    obtain ⟨above, others⟩ := le_scan eligible score best items
    exact ⟨lt_of_le_of_lt above below,
      fun item member fits => lt_of_le_of_lt (others item member fits) below⟩
  · intro ⟨start, others⟩
    rcases scan_cases eligible score best items with same | ⟨item, member, fits, -, found⟩
    · rw [same]
      exact start
    · rw [found]
      exact others item member fits

theorem scan_append (best : β × Option α) (first second : List α) :
    scan eligible score best (first ++ second) =
      scan eligible score (scan eligible score best first) second := by
  induction first generalizing best with
  | nil => rfl
  | cons item rest ih =>
      rw [List.cons_append, scan, scan]
      split
      · exact ih _
      · exact ih _

/-- Items that are no better leave the result as it is. -/
theorem scan_of_le {best : β × Option α} {items : List α}
    (below : ∀ item ∈ items, eligible item = true → score item ≤ best.1) :
    scan eligible score best items = best := by
  rcases scan_cases eligible score best items with same | ⟨item, member, fits, above, -⟩
  · exact same
  · exact absurd (below item member fits) (not_le.mpr above)

/-- An item that is returned is in the list, and the score is its own. -/
theorem of_scan_eq_some {start : β} {items : List α} {item : α}
    (found : (scan eligible score (start, none) items).2 = some item) :
    item ∈ items ∧ (scan eligible score (start, none) items).1 = score item := by
  rcases scan_cases eligible score (start, none) items with same | ⟨other, member, -, -, same⟩
  · rw [same] at found
    cases found
  · rw [same] at found ⊢
    cases found
    exact ⟨member, rfl⟩

/-- An eligible item above the start is enough for one to be returned. -/
theorem exists_scan_eq_some {start : β} {items : List α} {item : α} (member : item ∈ items)
    (fits : eligible item = true) (above : start < score item) :
    ∃ best, (scan eligible score (start, none) items).2 = some best := by
  have reached := score_le_scan eligible score (start, none) member fits
  rcases scan_cases eligible score (start, none) items with same | ⟨best, -, -, -, same⟩
  · rw [same] at reached
    exact absurd reached (not_le.mpr above)
  · exact ⟨best, congrArg Prod.snd same⟩

end GiantCore.Foundation.RunningMax
