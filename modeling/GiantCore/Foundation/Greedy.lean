import Mathlib.Algebra.BigOperators.Group.List.Basic
import Mathlib.Algebra.Order.Ring.Int
import Mathlib.Tactic.Common

/-! # Greedy choice

Items are taken in order as long as their cost fits in what is left of a total. An item that does
not fit is passed over, and later ones may still be taken.
-/

namespace GiantCore.Foundation.Greedy

variable {α : Type*} (cost : α → Int) (total : Int)

def take : Int → List α → List α
  | _, [] => []
  | spent, item :: rest =>
      if cost item + spent ≤ total then item :: take (spent + cost item) rest
      else take spent rest

/-- What a list of items costs. -/
def sum (items : List α) : Int := (items.map cost).sum

variable {cost total}

theorem take_sublist (spent : Int) (items : List α) :
    (take cost total spent items).Sublist items := by
  induction items generalizing spent with
  | nil => exact List.Sublist.refl _
  | cons item rest ih =>
      rw [take]
      split
      · exact (ih _).cons_cons item
      · exact (ih _).cons item

theorem take_append (spent : Int) (first second : List α) :
    take cost total spent (first ++ second) =
      take cost total spent first ++
        take cost total (spent + sum cost (take cost total spent first)) second := by
  induction first generalizing spent with
  | nil => simp [take, sum]
  | cons item rest ih =>
      rw [List.cons_append, take, take]
      split
      · rw [ih]
        simp only [sum, List.map_cons, List.sum_cons, List.cons_append]
        rw [add_assoc]
      · rw [ih]

/-- Nothing is taken if and only if nothing fits. -/
theorem take_eq_nil_iff {spent : Int} {items : List α} :
    take cost total spent items = [] ↔ ∀ item ∈ items, total < cost item + spent := by
  induction items with
  | nil => simp [take]
  | cons item rest ih =>
      rw [take, List.forall_mem_cons]
      split
      · rename_i room
        refine iff_of_false (List.cons_ne_nil _ _) ?_
        rintro ⟨full, -⟩
        omega
      · rename_i full
        rw [ih, and_iff_right (not_le.mp full)]

/-- More items behind do not change the choice if and only if none of them fits in what is left. -/
theorem take_append_eq_iff {spent : Int} {first second : List α} :
    take cost total spent (first ++ second) = take cost total spent first ↔
      ∀ item ∈ second, total < cost item + (spent + sum cost (take cost total spent first)) := by
  rw [take_append, List.append_right_eq_self, take_eq_nil_iff]

/-- A list that is sorted with the items of a test in front is split by the test. -/
theorem filter_append_filter {r : α → α → Prop} {test : α → Bool} {items : List α}
    (sorted : items.Pairwise r)
    (front : ∀ first ∈ items, ∀ second ∈ items, r first second → test second = true →
      test first = true) :
    items.filter test ++ items.filter (fun item => !test item) = items := by
  induction items with
  | nil => rfl
  | cons item rest ih =>
      rw [List.pairwise_cons] at sorted
      cases passes : test item with
      | true =>
          rw [List.filter_cons_of_pos passes, List.filter_cons_of_neg (by simp [passes]),
            List.cons_append, ih sorted.2]
          intro first firstIn second secondIn
          exact front first (List.mem_cons_of_mem _ firstIn) second
            (List.mem_cons_of_mem _ secondIn)
      | false =>
          have none (later : α) (inside : later ∈ rest) : test later = false := by
            by_contra passed
            rw [Bool.not_eq_false] at passed
            have before := front item List.mem_cons_self later (List.mem_cons_of_mem _ inside)
              (sorted.1 later inside) passed
            rw [passes] at before
            cases before
          have empty : rest.filter test = [] := by
            rw [List.filter_eq_nil_iff]
            intro later inside
            rw [none later inside]
            exact Bool.false_ne_true
          have all : rest.filter (fun item => !test item) = rest := by
            rw [List.filter_eq_self]
            intro later inside
            rw [none later inside]
            rfl
          rw [List.filter_cons_of_neg (by simp [passes]),
            List.filter_cons_of_pos (by simp [passes]), empty, all, List.nil_append]

end GiantCore.Foundation.Greedy
