import Mathlib.Data.Nat.Digits.Defs
import Mathlib.Tactic.Common
import Mathlib.Tactic.Ring

/-! # Numbers in limbs

A number of many bits is a list of words of some width, from the lowest up. Words are replaced, or
bits are set in them; the lemmas say what that does to the number.
-/

namespace GiantCore.Foundation.Limbs

variable {width : Nat}

/-- The number in some words. -/
def value (width : Nat) (words : List Nat) : Nat := Nat.ofDigits (2 ^ width) words

/-- Every word fits its width. -/
def Bounded (width : Nat) (words : List Nat) : Prop := ∀ word ∈ words, word < 2 ^ width

/-- Set bits of a word. -/
def orAt (words : List Nat) (i word : Nat) : List Nat := words.set i (words.getD i 0 ||| word)

/-- **A loop over indices.** What holds before, and from each round to the next, holds after. -/
theorem foldl_range_induct {σ : Type} {motive : Nat → σ → Prop} {round : σ → Nat → σ} {count : Nat}
    {start : σ} (before : motive 0 start)
    (step : ∀ i state, i < count → motive i state → motive (i + 1) (round state i)) :
    motive count ((List.range count).foldl round start) := by
  induction count with
  | zero => exact before
  | succ count ih =>
      rw [List.range_succ, List.foldl_append]
      exact step count _ (Nat.lt_succ_self _) (ih fun i state less => step i state (by omega))

@[simp] theorem length_orAt (words : List Nat) (i word : Nat) :
    (orAt words i word).length = words.length := List.length_set

theorem value_nil : value width [] = 0 := rfl

theorem value_cons (word : Nat) (words : List Nat) :
    value width (word :: words) = word + 2 ^ width * value width words := Nat.ofDigits_cons ..

theorem value_replicate_zero (count : Nat) : value width (List.replicate count 0) = 0 :=
  Nat.ofDigits_replicate_zero

theorem bounded_replicate_zero (count : Nat) : Bounded width (List.replicate count 0) := by
  intro word mem
  rw [(List.mem_replicate.mp mem).2]
  exact Nat.two_pow_pos width

theorem Bounded.getD {words : List Nat} (bounded : Bounded width words) (i : Nat) :
    words.getD i 0 < 2 ^ width := by
  by_cases inside : i < words.length
  · rw [List.getD_eq_getElem?_getD, List.getElem?_eq_getElem inside, Option.getD_some]
    exact bounded _ (List.getElem_mem inside)
  · rw [List.getD_eq_getElem?_getD, List.getElem?_eq_none (Nat.not_lt.mp inside), Option.getD_none]
    exact Nat.two_pow_pos width

theorem Bounded.set {words : List Nat} (bounded : Bounded width words) (i : Nat) {word : Nat}
    (fits : word < 2 ^ width) : Bounded width (words.set i word) := by
  intro other mem
  obtain old | rfl := List.mem_or_eq_of_mem_set mem
  · exact bounded other old
  · exact fits

theorem Bounded.orAt {words : List Nat} (bounded : Bounded width words) (i : Nat) {word : Nat}
    (fits : word < 2 ^ width) : Bounded width (orAt words i word) :=
  bounded.set i (Nat.or_lt_two_pow (bounded.getD i) fits)

theorem Bounded.tail {word : Nat} {words : List Nat} (bounded : Bounded width (word :: words)) :
    Bounded width words := fun other mem => bounded other (.tail _ mem)

theorem value_lt {words : List Nat} (bounded : Bounded width words) :
    value width words < 2 ^ (width * words.length) := by
  induction words with
  | nil => exact Nat.one_pos
  | cons word words ih =>
      have first := bounded word (.head _)
      have rest := ih bounded.tail
      rw [value_cons, List.length_cons, Nat.mul_succ, Nat.add_comm (width * _), Nat.pow_add]
      calc word + 2 ^ width * value width words
          < 2 ^ width * (value width words + 1) := by rw [Nat.mul_succ]; omega
        _ ≤ 2 ^ width * 2 ^ (width * words.length) := Nat.mul_le_mul_left _ rest

/-- The lowest word takes the lowest bits. -/
theorem value_cons_or {word : Nat} (words : List Nat) (fits : word < 2 ^ width) :
    value width (word :: words) = value width words <<< width ||| word := by
  rw [value_cons, ← Nat.shiftLeft_add_eq_or_of_lt fits, Nat.shiftLeft_eq, Nat.mul_comm,
    Nat.add_comm]

/-- A word that is replaced. -/
theorem value_set {words : List Nat} {i : Nat} (inside : i < words.length) (word : Nat) :
    value width (words.set i word) + words.getD i 0 * 2 ^ (width * i) =
      value width words + word * 2 ^ (width * i) := by
  induction words generalizing i with
  | nil => exact absurd inside (Nat.not_lt_zero _)
  | cons first words ih =>
      cases i with
      | zero =>
          rw [List.set_cons_zero, value_cons, value_cons, List.getD_cons_zero]
          ring
      | succ i =>
          have rest := ih (Nat.lt_of_succ_lt_succ inside)
          rw [List.set_cons_succ, value_cons, value_cons, List.getD_cons_succ, Nat.mul_succ,
            Nat.pow_add]
          calc first + 2 ^ width * value width (words.set i word) +
                words.getD i 0 * (2 ^ (width * i) * 2 ^ width)
              = first + 2 ^ width * (value width (words.set i word) +
                  words.getD i 0 * 2 ^ (width * i)) := by ring
            _ = first + 2 ^ width * value width words + word * (2 ^ (width * i) * 2 ^ width) := by
                rw [rest]
                ring

/-- **Bits set in a word are set in the number.** -/
theorem value_orAt {words : List Nat} {i word : Nat} (bounded : Bounded width words)
    (inside : i < words.length) (fits : word < 2 ^ width) :
    value width (orAt words i word) = value width words ||| word <<< (width * i) := by
  induction words generalizing i with
  | nil => exact absurd inside (Nat.not_lt_zero _)
  | cons first words ih =>
      have small := bounded first (.head _)
      cases i with
      | zero =>
          have both : first ||| word < 2 ^ width := Nat.or_lt_two_pow small fits
          rw [orAt, List.set_cons_zero, List.getD_cons_zero, value_cons_or _ both,
            value_cons_or _ small, Nat.mul_zero, Nat.shiftLeft_zero, Nat.or_assoc]
      | succ i =>
          have rest := ih bounded.tail (Nat.lt_of_succ_lt_succ inside)
          rw [orAt] at rest ⊢
          rw [List.set_cons_succ, List.getD_cons_succ, value_cons_or _ small,
            value_cons_or _ small, rest, Nat.shiftLeft_or_distrib, ← Nat.shiftLeft_add,
            Nat.mul_succ, Nat.or_assoc, Nat.or_assoc, Nat.or_comm first]

/-- One word more. -/
theorem value_take_succ {words : List Nat} {i : Nat} (inside : i < words.length) :
    value width (words.take (i + 1)) =
      value width (words.take i) + words.getD i 0 * 2 ^ (width * i) := by
  rw [List.take_succ_eq_append_getElem inside, value, Nat.ofDigits_append, Nat.ofDigits_singleton,
    List.length_take_of_le (Nat.le_of_lt inside), ← Nat.pow_mul,
    List.getD_eq_getElem?_getD, List.getElem?_eq_getElem inside, Option.getD_some, Nat.mul_comm]
  rfl

theorem Bounded.take {words : List Nat} (bounded : Bounded width words) (i : Nat) :
    Bounded width (words.take i) := fun word mem => bounded word (List.mem_of_mem_take mem)

theorem value_take_lt {words : List Nat} {i : Nat} (bounded : Bounded width words)
    (inside : i ≤ words.length) : value width (words.take i) < 2 ^ (width * i) := by
  have below := value_lt (bounded.take i)
  rwa [List.length_take_of_le inside] at below

/-- One word more, as bits. -/
theorem value_take_succ_or {words : List Nat} {i : Nat} (bounded : Bounded width words)
    (inside : i < words.length) :
    value width (words.take (i + 1)) =
      value width (words.take i) ||| words.getD i 0 <<< (width * i) := by
  have below := value_take_lt bounded (Nat.le_of_lt inside)
  rw [value_take_succ inside, Nat.or_comm, ← Nat.shiftLeft_add_eq_or_of_lt below,
    Nat.shiftLeft_eq, Nat.add_comm]

end GiantCore.Foundation.Limbs
