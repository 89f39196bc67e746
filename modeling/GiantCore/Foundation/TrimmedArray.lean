import Mathlib.Data.List.DropRight
import Mathlib.Tactic.Common

/-! # Arrays without trailing blanks

An array of cells in which a cell may be blank is stored without the blank
cells at its end. Blanking a cell therefore may shorten the array, by more than
one cell. When all blank cells are the same, the old array is recovered from
the shortened one and the cell that was blanked
(`Foundation.TrimmedArray.restore_eq`).
-/

namespace Foundation.TrimmedArray

variable {α : Type*} (blank : α → Bool) (hole : α)

/-- The array after its cell `n` is blanked. -/
def erase (cells : List α) (n : Nat) : List α := (cells.set n hole).rdropWhile blank

/-- Put a cell back at index `n`, padding with holes up to it. -/
def restore (cells : List α) (n : Nat) (cell : α) : List α :=
  (cells ++ List.replicate (n + 1 - cells.length) hole).set n cell

/-- Blank cells are holes, and the last cell is not blank. -/
structure Trimmed (cells : List α) : Prop where
  eq_hole : ∀ cell ∈ cells, blank cell = true → cell = hole
  getLast_full : ∀ cell, cells.getLast? = some cell → blank cell = false

variable {blank hole}

theorem getElem?_rdropWhile {cells : List α} {n : Nat} {cell : α} (full : blank cell = false) :
    (cells.rdropWhile blank)[n]? = some cell ↔ cells[n]? = some cell := by
  have split : cells.rdropWhile blank ++ cells.rtakeWhile blank = cells :=
    List.rdropWhile_append_rtakeWhile
  constructor
  · intro found
    rw [← split]
    exact List.getElem?_append_left (List.getElem?_eq_some_iff.mp found).1 ▸ found
  · intro found
    rw [← split] at found
    by_cases inside : n < (cells.rdropWhile blank).length
    · rwa [List.getElem?_append_left inside] at found
    · rw [List.getElem?_append_right (Nat.le_of_not_lt inside)] at found
      have dropped := List.mem_rtakeWhile_imp (List.mem_of_getElem? found)
      rw [full] at dropped
      cases dropped

theorem getLast_rdropWhile (cells : List α) (cell : α)
    (last : (cells.rdropWhile blank).getLast? = some cell) : blank cell = false := by
  have nonempty : cells.rdropWhile blank ≠ [] := by
    intro empty
    simp [empty] at last
  have full := List.rdropWhile_last_not blank cells nonempty
  rw [List.getLast?_eq_some_getLast nonempty, Option.some_inj] at last
  rw [last] at full
  simpa using full

/-- Trimming an array whose blank cells are holes. -/
theorem trimmed_rdropWhile {cells : List α}
    (holes : ∀ cell ∈ cells, blank cell = true → cell = hole) :
    Trimmed blank hole (cells.rdropWhile blank) where
  eq_hole cell member := holes cell ((List.rdropWhile_prefix blank cells).subset member)
  getLast_full := getLast_rdropWhile cells

/-- A trimmed array is not trimmed further. -/
theorem Trimmed.rdropWhile_eq {cells : List α} (trimmed : Trimmed blank hole cells) :
    cells.rdropWhile blank = cells := by
  rw [List.rdropWhile_eq_self_iff]
  intro nonempty
  rw [trimmed.getLast_full _ (List.getLast?_eq_some_getLast nonempty)]
  exact Bool.false_ne_true

theorem Trimmed.erase {cells : List α} (trimmed : Trimmed blank hole cells) (n : Nat) :
    Trimmed blank hole (erase blank hole cells n) := by
  apply trimmed_rdropWhile
  intro cell member blankCell
  rcases List.mem_or_eq_of_mem_set member with old | new
  · exact trimmed.eq_hole cell old blankCell
  · exact new

/-- The full cells that remain are those at the other indices. -/
theorem getElem?_erase {cells : List α} {n m : Nat} {cell : α} (isBlank : blank hole = true)
    (full : blank cell = false) :
    (erase blank hole cells n)[m]? = some cell ↔ cells[m]? = some cell ∧ m ≠ n := by
  rw [erase, getElem?_rdropWhile full]
  by_cases same : m = n
  · subst same
    have different : hole ≠ cell := by
      rintro rfl
      rw [isBlank] at full
      cases full
    simp only [List.getElem?_set_self', ne_eq, not_true_eq_false, and_false, iff_false]
    cases cells[m]? <;> simp [different]
  · simp [List.getElem?_set_ne (Ne.symm same), same]

/-- **Restoring a blanked cell.** -/
theorem restore_eq {cells : List α} (trimmed : Trimmed blank hole cells)
    (isBlank : blank hole = true) {n : Nat} {cell : α} (found : cells[n]? = some cell) :
    restore hole (erase blank hole cells n) n cell = cells := by
  obtain ⟨bound, at_n⟩ := List.getElem?_eq_some_iff.mp found
  rcases Nat.lt_or_ge (n + 1) cells.length with inner | last
  · -- the last cell is untouched, so nothing is dropped
    have kept : erase blank hole cells n = cells.set n hole := by
      rw [erase, List.rdropWhile_eq_self_iff]
      intro nonempty
      have lastCell : (cells.set n hole).getLast nonempty = cells.getLast (by
          intro empty; simp [empty] at bound) := by
        rw [List.getLast_eq_getElem, List.getLast_eq_getElem]
        simp only [List.length_set]
        exact List.getElem_set_ne (by omega) _
      rw [lastCell, trimmed.getLast_full _ (List.getLast?_eq_some_getLast _)]
      exact Bool.false_ne_true
    rw [kept, restore, List.length_set, show n + 1 - cells.length = 0 by omega,
      List.replicate_zero, List.append_nil, List.set_set, ← at_n, List.set_getElem_self]
  · -- the last cell is blanked: the cells dropped with it were holes
    obtain ⟨front, rfl⟩ : ∃ front, cells = front ++ [cell] := by
      refine ⟨cells.dropLast, ?_⟩
      have nonempty : cells ≠ [] := by intro empty; simp [empty] at bound
      have lastCell : cells.getLast nonempty = cell := by
        rw [List.getLast_eq_getElem, ← at_n]
        congr 1
        omega
      rw [← lastCell, List.dropLast_append_getLast nonempty]
    have position : n = front.length := by
      simp only [List.length_append, List.length_singleton] at last bound
      omega
    subst position
    have erased : erase blank hole (front ++ [cell]) front.length = front.rdropWhile blank := by
      rw [erase, List.set_append_right _ _ (Nat.le_refl _), Nat.sub_self, List.set_cons_zero]
      exact List.rdropWhile_concat_pos blank front hole isBlank
    have split : front.rdropWhile blank ++ front.rtakeWhile blank = front :=
      List.rdropWhile_append_rtakeWhile
    have dropped : front.rtakeWhile blank =
        List.replicate (front.rtakeWhile blank).length hole := by
      rw [List.eq_replicate_iff]
      refine ⟨rfl, fun other member => ?_⟩
      exact trimmed.eq_hole other
        (List.mem_append_left _ ((List.rtakeWhile_suffix blank front).subset member))
        (List.mem_rtakeWhile_imp member)
    have lengths : front.length =
        (front.rdropWhile blank).length + (front.rtakeWhile blank).length := by
      rw [← List.length_append, split]
    have padded : front.rdropWhile blank ++
        List.replicate (front.length + 1 - (front.rdropWhile blank).length) hole =
          front ++ [hole] := by
      rw [show front.length + 1 - (front.rdropWhile blank).length =
          (front.rtakeWhile blank).length + 1 by omega, List.replicate_succ', ← dropped,
        ← List.append_assoc, split]
    rw [erased, restore, padded, List.set_append_right _ _ (Nat.le_refl _), Nat.sub_self,
      List.set_cons_zero]

end Foundation.TrimmedArray
