import Mathlib.Data.List.Induction
import Mathlib.Data.Nat.Digits.Defs
import Mathlib.Tactic.Common
import Mathlib.Tactic.Ring

/-! # Numbers in a buffer of digits

Digits of some base stand in a buffer of fixed length, from the lowest up. The buffer is
multiplied by a number and a number is added, digit by digit with a carry, so that the digits of a
number in one base are turned into those in another.
-/

namespace GiantCore.Foundation.Positional

variable {base mult : Nat}

/-- Multiply a buffer and add a carry: the buffer after that, and the carry out of it. -/
def mulAdd (base mult : Nat) : List Nat → Nat → List Nat × Nat
  | [], carry => ([], carry)
  | digit :: digits, carry =>
      ((carry + mult * digit) % base :: (mulAdd base mult digits ((carry + mult * digit) / base)).1,
        (mulAdd base mult digits ((carry + mult * digit) / base)).2)

/-- The digits of a number without the zeros before them, from the highest down. -/
def significant (digits : List Nat) : List Nat := digits.reverse.dropWhile (· == 0)

theorem length_mulAdd (digits : List Nat) (carry : Nat) :
    (mulAdd base mult digits carry).1.length = digits.length := by
  induction digits generalizing carry with
  | nil => rfl
  | cons digit digits ih => rw [mulAdd, List.length_cons, List.length_cons, ih]

theorem mulAdd_lt (positive : 0 < base) (digits : List Nat) (carry : Nat) :
    ∀ digit ∈ (mulAdd base mult digits carry).1, digit < base := by
  induction digits generalizing carry with
  | nil => simp [mulAdd]
  | cons digit digits ih =>
      intro other mem
      rw [mulAdd, List.mem_cons] at mem
      obtain rfl | later := mem
      · exact Nat.mod_lt _ positive
      · exact ih _ other later

/-- Buffer and carry are the product and the sum. -/
theorem ofDigits_mulAdd (digits : List Nat) (carry : Nat) :
    Nat.ofDigits base (mulAdd base mult digits carry).1 +
        base ^ digits.length * (mulAdd base mult digits carry).2 =
      mult * Nat.ofDigits base digits + carry := by
  induction digits generalizing carry with
  | nil => simp [mulAdd]
  | cons digit digits ih =>
      have division := Nat.mod_add_div (carry + mult * digit) base
      have rest := ih ((carry + mult * digit) / base)
      rw [mulAdd, Nat.ofDigits_cons, Nat.ofDigits_cons, List.length_cons]
      generalize (carry + mult * digit) % base = low at *
      generalize (carry + mult * digit) / base = high at *
      generalize (mulAdd base mult digits high).2 = out at *
      generalize Nat.ofDigits base (mulAdd base mult digits high).1 = written at *
      calc low + base * written + base ^ (digits.length + 1) * out
          = low + base * (written + base ^ digits.length * out) := by ring
        _ = (low + base * high) + mult * (base * Nat.ofDigits base digits) := by
            rw [rest]
            ring
        _ = mult * (digit + base * Nat.ofDigits base digits) + carry := by
            rw [division]
            ring

/-- What fits the buffer leaves no carry. -/
theorem mulAdd_of_lt {digits : List Nat} {carry : Nat}
    (fits : mult * Nat.ofDigits base digits + carry < base ^ digits.length) :
    (mulAdd base mult digits carry).2 = 0 ∧
      Nat.ofDigits base (mulAdd base mult digits carry).1 =
        mult * Nat.ofDigits base digits + carry := by
  have total := @ofDigits_mulAdd base mult digits carry
  have none : (mulAdd base mult digits carry).2 = 0 := by
    by_contra some
    have least := Nat.mul_le_mul_left (base ^ digits.length) (Nat.one_le_iff_ne_zero.mpr some)
    omega
  rw [none, Nat.mul_zero, Nat.add_zero] at total
  exact ⟨none, total⟩

/-- A round of a conversion, in a buffer with room for the digits that are left. -/
theorem mulAdd_step {digits : List Nat} {carry rest : Nat} (bounded : carry < mult)
    (room : (Nat.ofDigits base digits + 1) * mult ^ (rest + 1) ≤ base ^ digits.length) :
    (mulAdd base mult digits carry).2 = 0 ∧
      Nat.ofDigits base (mulAdd base mult digits carry).1 =
        mult * Nat.ofDigits base digits + carry ∧
      (Nat.ofDigits base (mulAdd base mult digits carry).1 + 1) * mult ^ rest ≤
        base ^ (mulAdd base mult digits carry).1.length := by
  have more : (mult * Nat.ofDigits base digits + carry + 1) * mult ^ rest ≤
      base ^ digits.length := by
    refine Nat.le_trans ?_ room
    rw [Nat.pow_succ, Nat.mul_comm (mult ^ rest) mult, ← Nat.mul_assoc]
    refine Nat.mul_le_mul_right _ ?_
    rw [Nat.add_mul, Nat.mul_comm mult]
    omega
  have power : 0 < mult ^ rest := Nat.pow_pos (by omega)
  have fits : mult * Nat.ofDigits base digits + carry < base ^ digits.length :=
    Nat.lt_of_lt_of_le (Nat.le_mul_of_pos_right _ power) more
  obtain ⟨none, value⟩ := mulAdd_of_lt fits
  exact ⟨none, value, by rw [value, length_mulAdd]; exact more⟩

/-- The value of digits from the highest down, behind one more. -/
theorem ofDigits_reverse_cons (digit : Nat) (digits : List Nat) :
    Nat.ofDigits base (digit :: digits).reverse =
      digit * base ^ digits.length + Nat.ofDigits base digits.reverse := by
  rw [List.reverse_cons, Nat.ofDigits_append, Nat.ofDigits_singleton, List.length_reverse]
  ring

/-- Without the zeros before them, the digits of a buffer are those of its number. -/
theorem significant_eq {digits : List Nat} (large : 1 < base)
    (bounded : ∀ digit ∈ digits, digit < base) :
    significant digits = (Nat.digits base (Nat.ofDigits base digits)).reverse := by
  induction digits using List.reverseRecOn with
  | nil => simp [significant]
  | append_singleton digits digit ih =>
      by_cases zero : digit = 0
      · subst zero
        have rest := ih fun other mem => bounded other (List.mem_append_left _ mem)
        rw [Nat.ofDigits_append_zero, ← rest]
        simp [significant]
      · have last (nonempty : digits ++ [digit] ≠ []) :
            (digits ++ [digit]).getLast nonempty ≠ 0 := by
          rwa [List.getLast_concat]
        rw [Nat.digits_ofDigits base large _ bounded last]
        simp [significant, zero]

/-- Digits from the highest down, with a first that is not zero, are those of their number. -/
theorem digits_reverse_eq {digits : List Nat} (large : 1 < base)
    (bounded : ∀ digit ∈ digits, digit < base) (first : digits.head? ≠ some 0) :
    (Nat.digits base (Nat.ofDigits base digits.reverse)).reverse = digits := by
  have stripped := @significant_eq base digits.reverse large
    fun digit mem => bounded digit (List.mem_reverse.mp mem)
  rw [← stripped, significant, List.reverse_reverse]
  cases digits with
  | nil => rfl
  | cons digit digits =>
      have nonzero : digit ≠ 0 := by simpa using first
      simp [nonzero]

/-- Room for the digits of a number in another base, by an estimate of the logarithm. -/
theorem pow_le_pow_room {source target digits times per : Nat} (positive : 0 < per)
    (base : 0 < target) (estimate : source ^ per ≤ target ^ times) :
    source ^ digits ≤ target ^ (digits * times / per + 1) := by
  have room : digits * times ≤ (digits * times / per + 1) * per := by
    have division := Nat.div_add_mod (digits * times) per
    have rest := Nat.mod_lt (digits * times) positive
    rw [Nat.add_mul, Nat.one_mul, Nat.mul_comm (digits * times / per) per]
    omega
  refine (Nat.pow_le_pow_iff_left positive.ne').mp ?_
  calc (source ^ digits) ^ per = (source ^ per) ^ digits := by rw [← Nat.pow_mul, ← Nat.pow_mul,
        Nat.mul_comm]
    _ ≤ (target ^ times) ^ digits := Nat.pow_le_pow_left estimate digits
    _ = target ^ (digits * times) := by rw [← Nat.pow_mul, Nat.mul_comm]
    _ ≤ target ^ ((digits * times / per + 1) * per) := Nat.pow_le_pow_right base room
    _ = (target ^ (digits * times / per + 1)) ^ per := Nat.pow_mul ..

end GiantCore.Foundation.Positional
