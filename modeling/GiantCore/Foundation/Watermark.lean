import Mathlib.Data.List.Perm.Basic
import Mathlib.Logic.Function.Basic
import Mathlib.Order.Lattice
import Mathlib.Tactic.Common

/-! # High-water marks

A filter that remembers, for each key, the mark of the last item it kept, and
keeps an item only if its mark is higher. What it keeps depends on the order of
the items. `keep_perm_iff` says when it does not, as far as a function of the
items can tell: items that start above the mark of a common key must agree on
their marks and on that function.
-/

namespace GiantCore.Foundation.Watermark

variable {α κ η τ : Type*} [DecidableEq κ] [LinearOrder η] (key : α → κ) (mark : α → η)

/-- The mark of the item is higher than the last one of its key. -/
def fresh (last : κ → Option η) (item : α) : Bool := (last (key item)).all (· < mark item)

/-- The items that are kept, in order. -/
def keep (last : κ → Option η) : List α → List α
  | [] => []
  | item :: rest =>
      if fresh key mark last item then
        item :: keep (Function.update last (key item) (some (mark item))) rest
      else keep last rest

/-- Fresh items of one key agree on their marks and on their targets. -/
def Agree (target : α → τ) (last : κ → Option η) (items : List α) : Prop :=
  ∀ first ∈ items, ∀ second ∈ items, fresh key mark last first = true →
    fresh key mark last second = true → key first = key second →
      mark first = mark second ∧ target first = target second

variable {key mark}

theorem fresh_update_of_ne {last : κ → Option η} {item other : α} (different : key other ≠ key item)
    (value : Option η) :
    fresh key mark (Function.update last (key item) value) other = fresh key mark last other := by
  rw [fresh, fresh, Function.update_of_ne different]

/-- After an item was kept, those of its key need a higher mark. -/
theorem fresh_update_self {last : κ → Option η} {item other : α} (same : key other = key item) :
    fresh key mark (Function.update last (key item) (some (mark item))) other =
      decide (mark item < mark other) := by
  rw [fresh, same, Function.update_self, Option.all_some]

/-- Marks only rise. -/
theorem fresh_of_update {last : κ → Option η} {item other : α}
    (kept : fresh key mark last item = true)
    (later : fresh key mark (Function.update last (key item) (some (mark item))) other = true) :
    fresh key mark last other = true := by
  by_cases same : key other = key item
  · rw [fresh_update_self same, decide_eq_true_eq] at later
    rw [fresh, same]
    unfold fresh at kept
    cases before : last (key item) with
    | none => rfl
    | some value =>
        rw [before, Option.all_some, decide_eq_true_eq] at kept
        exact decide_eq_true (lt_trans kept later)
  · rwa [fresh_update_of_ne same] at later

variable {target : α → τ}

omit [DecidableEq κ] in
theorem Agree.tail {last : κ → Option η} {item : α} {rest : List α}
    (agree : Agree key mark target last (item :: rest)) : Agree key mark target last rest :=
  fun first inFirst second inSecond =>
    agree first (List.mem_cons_of_mem _ inFirst) second (List.mem_cons_of_mem _ inSecond)

theorem Agree.update {last : κ → Option η} {item : α} {items : List α}
    (agree : Agree key mark target last items) (kept : fresh key mark last item = true) :
    Agree key mark target (Function.update last (key item) (some (mark item))) items :=
  fun first inFirst second inSecond freshFirst freshSecond =>
    agree first inFirst second inSecond (fresh_of_update kept freshFirst)
      (fresh_of_update kept freshSecond)

/-- Two neighbours that agree may change places. -/
theorem keep_swap {last : κ → Option η} {first second : α} {rest : List α}
    (agree : Agree key mark target last (first :: second :: rest)) :
    ((keep key mark last (first :: second :: rest)).map target).Perm
      ((keep key mark last (second :: first :: rest)).map target) := by
  have inFirst : first ∈ first :: second :: rest := List.mem_cons_self
  have inSecond : second ∈ first :: second :: rest := List.mem_cons_of_mem _ List.mem_cons_self
  by_cases same : key first = key second
  · -- only one of the two is kept, and it does not matter which
    cases freshFirst : fresh key mark last first with
    | false =>
        have blocked : fresh key mark last second = true →
            fresh key mark (Function.update last (key second) (some (mark second))) first =
              false := by
          intro kept
          by_contra later
          rw [fresh_of_update kept (Bool.not_eq_false _ ▸ later)] at freshFirst
          cases freshFirst
        cases freshSecond : fresh key mark last second with
        | false => simp [keep, freshFirst, freshSecond]
        | true => simp [keep, freshFirst, freshSecond, blocked freshSecond]
    | true =>
        cases freshSecond : fresh key mark last second with
        | false =>
            have blocked : fresh key mark
                (Function.update last (key first) (some (mark first))) second = false := by
              by_contra later
              rw [fresh_of_update freshFirst (Bool.not_eq_false _ ▸ later)] at freshSecond
              cases freshSecond
            simp [keep, freshFirst, freshSecond, blocked]
        | true =>
            obtain ⟨marks, targets⟩ :=
              agree first inFirst second inSecond freshFirst freshSecond same
            have blockedSecond : fresh key mark
                (Function.update last (key first) (some (mark first))) second = false := by
              rw [fresh_update_self same.symm, marks, decide_eq_false (lt_irrefl _)]
            have blockedFirst : fresh key mark
                (Function.update last (key second) (some (mark second))) first = false := by
              rw [fresh_update_self same, marks, decide_eq_false (lt_irrefl _)]
            simp only [keep, freshFirst, freshSecond, blockedFirst, blockedSecond, ↓reduceIte,
              Bool.false_eq_true, List.map_cons]
            rw [same, marks, targets]
  · have other : key second ≠ key first := Ne.symm same
    have commute := Function.update_comm same (some (mark first)) (some (mark second)) last
    cases freshFirst : fresh key mark last first with
    | false =>
        cases freshSecond : fresh key mark last second with
        | false => simp [keep, freshFirst, freshSecond]
        | true => simp [keep, freshFirst, freshSecond, fresh_update_of_ne same]
    | true =>
        cases freshSecond : fresh key mark last second with
        | false => simp [keep, freshFirst, freshSecond, fresh_update_of_ne other]
        | true =>
            simp only [keep, freshFirst, freshSecond, fresh_update_of_ne same,
              fresh_update_of_ne other, ↓reduceIte, List.map_cons, commute]
            exact List.Perm.swap _ _ _

/-- **Items that agree are kept alike in every order.** -/
theorem keep_perm {last : κ → Option η} {first second : List α} (perm : first.Perm second)
    (agree : Agree key mark target last first) :
    ((keep key mark last first).map target).Perm ((keep key mark last second).map target) := by
  induction perm generalizing last with
  | nil => exact List.Perm.refl _
  | cons item _ ih =>
      unfold keep
      split
      · rename_i kept
        exact (ih (agree.tail.update kept)).cons _
      · exact ih agree.tail
  | swap first second rest => exact keep_swap agree
  | trans firstPerm _ ihFirst ihSecond =>
      refine (ihFirst agree).trans (ihSecond fun one inOne other inOther => ?_)
      exact agree one (firstPerm.mem_iff.mpr inOne) other (firstPerm.mem_iff.mpr inOther)

/-- Two fresh items of a key that are kept alike in both orders agree. -/
theorem agree_of_keep_perm {last : κ → Option η} {first second : α} {rest : List α}
    (freshFirst : fresh key mark last first = true)
    (freshSecond : fresh key mark last second = true) (same : key first = key second)
    (perm : ((keep key mark last (first :: second :: rest)).map target).Perm
      ((keep key mark last (second :: first :: rest)).map target)) :
    mark first = mark second ∧ target first = target second := by
  simp only [keep, freshFirst, freshSecond, ↓reduceIte, fresh_update_self same,
    fresh_update_self same.symm, decide_eq_true_eq] at perm
  simp only [same, Function.update_idem] at perm
  rcases lt_trichotomy (mark first) (mark second) with less | equal | more
  · rw [if_pos less, if_neg (not_lt.mpr less.le)] at perm
    have lengths := perm.length_eq
    simp only [List.map_cons, List.length_cons] at lengths
    omega
  · rw [equal] at perm
    simp only [lt_self_iff_false, ↓reduceIte, List.map_cons] at perm
    have single := (List.perm_append_right_iff _).mp
      (show ([target first] ++ _).Perm ([target second] ++ _) from perm)
    exact ⟨equal, List.singleton_perm_singleton.mp single⟩
  · rw [if_neg (not_lt.mpr more.le), if_pos more] at perm
    have lengths := perm.length_eq
    simp only [List.map_cons, List.length_cons] at lengths
    omega

/-- **When the order does not matter.** -/
theorem keep_perm_iff (last : κ → Option η) (items : List α) :
    (∀ first second : List α, first.Perm items → second.Perm items →
      ((keep key mark last first).map target).Perm ((keep key mark last second).map target)) ↔
      Agree key mark target last items := by
  classical
  constructor
  · intro alike first inFirst second inSecond freshFirst freshSecond same
    by_cases equal : first = second
    · rw [equal]
      exact ⟨rfl, rfl⟩
    · have inRest : second ∈ items.erase first :=
        (List.mem_erase_of_ne (Ne.symm equal)).mpr inSecond
      have split : items.Perm (first :: second :: (items.erase first).erase second) :=
        (List.perm_cons_erase inFirst).trans ((List.perm_cons_erase inRest).cons first)
      exact agree_of_keep_perm freshFirst freshSecond same
        (alike _ _ split.symm ((List.Perm.swap _ _ _).trans split.symm))
  · intro agree first second firstPerm secondPerm
    refine keep_perm (firstPerm.trans secondPerm.symm) fun one inOne other inOther => ?_
    exact agree one (firstPerm.mem_iff.mp inOne) other (firstPerm.mem_iff.mp inOther)

end GiantCore.Foundation.Watermark
