import GiantCore.Foundation.Limbs
import Mathlib.Data.Nat.Bitwise

/-! # Arithmetic of `base_uint`

`uint256.h` keeps a number in words of 32 bits, from the lowest up. Shifts, sums, products,
comparisons and the long division of `uint256.cpp` are loops over the words; each is here with what
it does to the number. All results are modulo the width (`value_divide`, `value_multiply`).
-/

namespace GiantCore.BaseUint

open GiantCore.Foundation.Limbs

/-- The bits of all words. -/
def BITS (pn : List Nat) : Nat := 32 * pn.length

/-! ## Shifts -/

/-- A round of `operator<<=`. -/
def shiftLeftRound (a : List Nat) (k shift : Nat) (pn : List Nat) (i : Nat) : List Nat :=
  let pn := if i + k + 1 < a.length ∧ shift ≠ 0 then
    orAt pn (i + k + 1) (a.getD i 0 >>> (32 - shift)) else pn
  if i + k < a.length then orAt pn (i + k) (a.getD i 0 <<< shift % 2 ^ 32) else pn

/-- `operator<<=`. -/
def shiftLeft (a : List Nat) (shift : Nat) : List Nat :=
  (List.range a.length).foldl (shiftLeftRound a (shift / 32) (shift % 32))
    (List.replicate a.length 0)

/-- A round of `operator>>=`. -/
def shiftRightRound (a : List Nat) (k shift : Nat) (pn : List Nat) (i : Nat) : List Nat :=
  let pn := if k + 1 ≤ i ∧ shift ≠ 0 then
    orAt pn (i - k - 1) (a.getD i 0 <<< (32 - shift) % 2 ^ 32) else pn
  if k ≤ i then orAt pn (i - k) (a.getD i 0 >>> shift) else pn

/-- `operator>>=`. -/
def shiftRight (a : List Nat) (shift : Nat) : List Nat :=
  (List.range a.length).foldl (shiftRightRound a (shift / 32) (shift % 32))
    (List.replicate a.length 0)

theorem lt_of_testBit {word u : Nat} (small : word < 2 ^ 32) (bit : word.testBit u = true) :
    u < 32 := by
  by_contra beyond
  have wide : word < 2 ^ u := lt_of_lt_of_le small (Nat.pow_le_pow_right (by decide) (by omega))
  rw [Nat.testBit_lt_two_pow wide] at bit
  cases bit

/-- The two places that a word is shifted to. -/
theorem word_shiftLeft {word : Nat} (small : word < 2 ^ 32) (i k s count : Nat) (less : s < 32) :
    word <<< (32 * i) <<< (32 * k + s) % 2 ^ (32 * count) =
      (if i + k + 1 < count ∧ s ≠ 0 then (word >>> (32 - s)) <<< (32 * (i + k + 1)) else 0) |||
        if i + k < count then (word <<< s % 2 ^ 32) <<< (32 * (i + k)) else 0 := by
  refine Nat.eq_of_testBit_eq fun t => ?_
  rw [Bool.eq_iff_iff, Nat.testBit_or, Bool.or_eq_true, Nat.testBit_mod_two_pow,
    Nat.testBit_shiftLeft, Nat.testBit_shiftLeft]
  simp only [Bool.and_eq_true, decide_eq_true_eq]
  constructor
  · rintro ⟨inside, beyond, above, bit⟩
    have place := lt_of_testBit small bit
    by_cases low : t < 32 * (i + k + 1)
    · refine .inr ?_
      rw [if_pos (by omega), Nat.testBit_shiftLeft, Nat.testBit_mod_two_pow,
        Nat.testBit_shiftLeft]
      simp only [Bool.and_eq_true, decide_eq_true_eq]
      exact ⟨by omega, by omega, by omega, by
        rwa [show t - 32 * (i + k) - s = t - (32 * k + s) - 32 * i by omega]⟩
    · refine .inl ?_
      rw [if_pos (by omega), Nat.testBit_shiftLeft, Nat.testBit_shiftRight]
      simp only [Bool.and_eq_true, decide_eq_true_eq]
      exact ⟨by omega, by
        rwa [show 32 - s + (t - 32 * (i + k + 1)) = t - (32 * k + s) - 32 * i by omega]⟩
  · rintro (high | low)
    · split at high
      · rw [Nat.testBit_shiftLeft, Nat.testBit_shiftRight] at high
        simp only [Bool.and_eq_true, decide_eq_true_eq] at high
        obtain ⟨above, bit⟩ := high
        have place := lt_of_testBit small bit
        exact ⟨by omega, by omega, by omega, by
          rwa [show t - (32 * k + s) - 32 * i = 32 - s + (t - 32 * (i + k + 1)) by omega]⟩
      · rw [Nat.zero_testBit] at high
        cases high
    · split at low
      · rw [Nat.testBit_shiftLeft, Nat.testBit_mod_two_pow, Nat.testBit_shiftLeft] at low
        simp only [Bool.and_eq_true, decide_eq_true_eq] at low
        obtain ⟨above, below, far, bit⟩ := low
        exact ⟨by omega, by omega, by omega, by
          rwa [show t - (32 * k + s) - 32 * i = t - 32 * (i + k) - s by omega]⟩
      · rw [Nat.zero_testBit] at low
        cases low

/-- The two places that a word is shifted down to. -/
theorem word_shiftRight {word : Nat} (small : word < 2 ^ 32) (i k s : Nat) (less : s < 32) :
    word <<< (32 * i) >>> (32 * k + s) =
      (if k + 1 ≤ i ∧ s ≠ 0 then (word <<< (32 - s) % 2 ^ 32) <<< (32 * (i - k - 1)) else 0) |||
        if k ≤ i then (word >>> s) <<< (32 * (i - k)) else 0 := by
  refine Nat.eq_of_testBit_eq fun t => ?_
  rw [Bool.eq_iff_iff, Nat.testBit_or, Bool.or_eq_true, Nat.testBit_shiftRight,
    Nat.testBit_shiftLeft]
  simp only [Bool.and_eq_true, decide_eq_true_eq]
  constructor
  · rintro ⟨above, bit⟩
    have place := lt_of_testBit small bit
    by_cases high : 32 * (i - k) ≤ t
    · refine .inr ?_
      rw [if_pos (by omega), Nat.testBit_shiftLeft, Nat.testBit_shiftRight]
      simp only [Bool.and_eq_true, decide_eq_true_eq]
      exact ⟨high, by rwa [show s + (t - 32 * (i - k)) = 32 * k + s + t - 32 * i by omega]⟩
    · refine .inl ?_
      rw [if_pos (by omega), Nat.testBit_shiftLeft, Nat.testBit_mod_two_pow,
        Nat.testBit_shiftLeft]
      simp only [Bool.and_eq_true, decide_eq_true_eq]
      exact ⟨by omega, by omega, by omega, by
        rwa [show t - 32 * (i - k - 1) - (32 - s) = 32 * k + s + t - 32 * i by omega]⟩
  · rintro (low | high)
    · split at low
      · rw [Nat.testBit_shiftLeft, Nat.testBit_mod_two_pow, Nat.testBit_shiftLeft] at low
        simp only [Bool.and_eq_true, decide_eq_true_eq] at low
        obtain ⟨above, below, far, bit⟩ := low
        exact ⟨by omega, by
          rwa [show 32 * k + s + t - 32 * i = t - 32 * (i - k - 1) - (32 - s) by omega]⟩
      · rw [Nat.zero_testBit] at low
        cases low
    · split at high
      · rw [Nat.testBit_shiftLeft, Nat.testBit_shiftRight] at high
        simp only [Bool.and_eq_true, decide_eq_true_eq] at high
        obtain ⟨above, bit⟩ := high
        exact ⟨by omega, by
          rwa [show 32 * k + s + t - 32 * i = s + (t - 32 * (i - k)) by omega]⟩
      · rw [Nat.zero_testBit] at high
        cases high

/-- What a condition sets, as bits of the number. -/
theorem value_ite_orAt {pn : List Nat} (bounded : Bounded 32 pn) {condition : Prop}
    [Decidable condition] {i word : Nat} (fits : word < 2 ^ 32)
    (inside : condition → i < pn.length) :
    value 32 (if condition then orAt pn i word else pn) =
        value 32 pn ||| (if condition then word <<< (32 * i) else 0) ∧
      Bounded 32 (if condition then orAt pn i word else pn) ∧
      (if condition then orAt pn i word else pn).length = pn.length := by
  by_cases here : condition
  · simp only [if_pos here]
    exact ⟨value_orAt bounded (inside here) fits, bounded.orAt i fits, length_orAt ..⟩
  · simp only [if_neg here, Nat.or_zero]
    exact ⟨trivial, bounded, trivial⟩

/-- What a shift keeps: the words and their width. -/
theorem shiftRight_lt {word : Nat} (small : word < 2 ^ 32) (s : Nat) : word >>> s < 2 ^ 32 :=
  lt_of_le_of_lt (Nat.shiftRight_le word s) small

/-- `operator<<=` multiplies by a power of two. -/
theorem value_shiftLeft {a : List Nat} (bounded : Bounded 32 a) (shift : Nat) :
    (shiftLeft a shift).length = a.length ∧ Bounded 32 (shiftLeft a shift) ∧
      value 32 (shiftLeft a shift) = value 32 a * 2 ^ shift % 2 ^ BITS a := by
  have split : 32 * (shift / 32) + shift % 32 = shift := by omega
  have less : shift % 32 < 32 := Nat.mod_lt _ (by decide)
  have looped := @foldl_range_induct _ (fun i pn => pn.length = a.length ∧ Bounded 32 pn ∧
    value 32 pn = value 32 (a.take i) <<< shift % 2 ^ BITS a)
    (shiftLeftRound a (shift / 32) (shift % 32)) a.length (List.replicate a.length 0)
    ⟨List.length_replicate, bounded_replicate_zero _, by
      rw [value_replicate_zero, List.take_zero, value_nil, Nat.zero_shiftLeft, Nat.zero_mod]⟩ ?_
  · rw [List.take_length, Nat.shiftLeft_eq] at looped
    exact looped
  · rintro i pn inside ⟨length, fits, total⟩
    have small := bounded.getD i
    obtain ⟨first, fits', length'⟩ := @value_ite_orAt pn fits
      (i + shift / 32 + 1 < a.length ∧ shift % 32 ≠ 0) _ (i + shift / 32 + 1) _
      (shiftRight_lt small (32 - shift % 32)) (fun here => by rw [length]; exact here.1)
    obtain ⟨second, fits'', length''⟩ := @value_ite_orAt _ fits'
      (i + shift / 32 < a.length) _ (i + shift / 32) (a.getD i 0 <<< (shift % 32) % 2 ^ 32)
      (Nat.mod_lt _ (by decide)) (fun here => by rw [length', length]; exact here)
    refine ⟨length''.trans (length'.trans length), fits'', ?_⟩
    have placed := word_shiftLeft small i (shift / 32) (shift % 32) a.length less
    rw [split] at placed
    rw [value_take_succ_or bounded inside, Nat.shiftLeft_or_distrib, Nat.or_mod_two_pow, ← total,
      BITS, placed, ← Nat.or_assoc, ← first]
    exact second

/-- `operator>>=` divides by a power of two. -/
theorem value_shiftRight {a : List Nat} (bounded : Bounded 32 a) (shift : Nat) :
    (shiftRight a shift).length = a.length ∧ Bounded 32 (shiftRight a shift) ∧
      value 32 (shiftRight a shift) = value 32 a / 2 ^ shift := by
  have split : 32 * (shift / 32) + shift % 32 = shift := by omega
  have less : shift % 32 < 32 := Nat.mod_lt _ (by decide)
  have looped := @foldl_range_induct _ (fun i pn => pn.length = a.length ∧ Bounded 32 pn ∧
    value 32 pn = value 32 (a.take i) >>> shift)
    (shiftRightRound a (shift / 32) (shift % 32)) a.length (List.replicate a.length 0)
    ⟨List.length_replicate, bounded_replicate_zero _, by
      rw [value_replicate_zero, List.take_zero, value_nil, Nat.zero_shiftRight]⟩ ?_
  · rw [List.take_length, Nat.shiftRight_eq_div_pow] at looped
    exact looped
  · rintro i pn inside ⟨length, fits, total⟩
    have small := bounded.getD i
    obtain ⟨first, fits', length'⟩ := @value_ite_orAt pn fits
      (shift / 32 + 1 ≤ i ∧ shift % 32 ≠ 0) _ (i - shift / 32 - 1)
      (a.getD i 0 <<< (32 - shift % 32) % 2 ^ 32) (Nat.mod_lt _ (by decide))
      (fun here => by omega)
    obtain ⟨second, fits'', length''⟩ := @value_ite_orAt _ fits' (shift / 32 ≤ i) _
      (i - shift / 32) _ (shiftRight_lt small (shift % 32)) (fun here => by omega)
    refine ⟨length''.trans (length'.trans length), fits'', ?_⟩
    have placed := word_shiftRight small i (shift / 32) (shift % 32) less
    rw [split] at placed
    rw [value_take_succ_or bounded inside, Nat.shiftRight_or_distrib, ← total, placed,
      ← Nat.or_assoc, ← first]
    exact second

/-! ## Sums and products -/

/-- A round of the inner loop of `operator*=`: the words and the carry. -/
def multiplyRound (factor : Nat) (b : List Nat) (j : Nat) (state : List Nat × Nat) (i : Nat) :
    List Nat × Nat :=
  let n := (state.2 + state.1.getD (i + j) 0 + factor * b.getD i 0) % 2 ^ 64
  (state.1.set (i + j) (n % 2 ^ 32), n / 2 ^ 32)

/-- The inner loop of `operator*=`. -/
def multiplyRow (pn : List Nat) (factor : Nat) (b : List Nat) (j : Nat) : List Nat × Nat :=
  (List.range (pn.length - j)).foldl (multiplyRound factor b j) (pn, 0)

/-- `operator*=`. -/
def multiply (a b : List Nat) : List Nat :=
  (List.range a.length).foldl (fun pn j => (multiplyRow pn (a.getD j 0) b j).1)
    (List.replicate a.length 0)

/-- A round of `operator+=`. -/
def addRound (b : List Nat) (state : List Nat × Nat) (i : Nat) : List Nat × Nat :=
  let n := (state.2 + state.1.getD i 0 + b.getD i 0) % 2 ^ 64
  (state.1.set i (n % 2 ^ 32), n / 2 ^ 32)

/-- `operator+=`. -/
def add (a b : List Nat) : List Nat := ((List.range a.length).foldl (addRound b) (a, 0)).1

/-- `operator++`. -/
def increment : List Nat → List Nat
  | [] => []
  | word :: pn =>
      if (word + 1) % 2 ^ 32 = 0 then 0 :: increment pn else (word + 1) % 2 ^ 32 :: pn

/-- `operator-` of one number. -/
def negate (pn : List Nat) : List Nat := increment (pn.map fun word => 2 ^ 32 - 1 - word)

/-- `operator-=`. -/
def subtract (a b : List Nat) : List Nat := add a (negate b)

/-- The 64 bits of a round hold what it sums up. -/
theorem round_lt {carry word factor other : Nat} (first : carry < 2 ^ 32) (second : word < 2 ^ 32)
    (third : factor < 2 ^ 32) (fourth : other < 2 ^ 32) :
    carry + word + factor * other < 2 ^ 64 := by
  have product : factor * other ≤ (2 ^ 32 - 1) * (2 ^ 32 - 1) :=
    Nat.mul_le_mul (by omega) (by omega)
  omega

/-- **A row** adds a multiple of the other number, from its place on, with a carry out of the
words. -/
theorem value_multiplyRow {pn b : List Nat} {factor j : Nat} (bounded : Bounded 32 pn)
    (bounded' : Bounded 32 b) (word : factor < 2 ^ 32) (width : b.length = pn.length)
    (place : j ≤ pn.length) :
    (multiplyRow pn factor b j).1.length = pn.length ∧ Bounded 32 (multiplyRow pn factor b j).1 ∧
      value 32 (multiplyRow pn factor b j).1 + (multiplyRow pn factor b j).2 * 2 ^ BITS pn =
        value 32 pn + factor * value 32 (b.take (pn.length - j)) * 2 ^ (32 * j) := by
  have looped := @foldl_range_induct _ (fun i state => state.1.length = pn.length ∧
    Bounded 32 state.1 ∧ state.2 < 2 ^ 32 ∧
    value 32 state.1 + state.2 * 2 ^ (32 * (i + j)) =
      value 32 pn + factor * value 32 (b.take i) * 2 ^ (32 * j))
    (multiplyRound factor b j) (pn.length - j) (pn, 0)
    ⟨rfl, bounded, Nat.two_pow_pos 32, by rw [List.take_zero, value_nil]; ring⟩ ?_
  · obtain ⟨length, fits, -, total⟩ := looped
    rw [Nat.sub_add_cancel place] at total
    exact ⟨length, fits, total⟩
  · rintro i ⟨words, carry⟩ inside ⟨length, fits, small, total⟩
    dsimp only at length fits small total
    have sum := round_lt small (fits.getD (i + j)) word (bounded'.getD i)
    have division := Nat.mod_add_div (carry + words.getD (i + j) 0 + factor * b.getD i 0) (2 ^ 32)
    unfold multiplyRound
    dsimp only
    rw [Nat.mod_eq_of_lt sum]
    have replaced := @value_set 32 words (i + j) (by omega)
      ((carry + words.getD (i + j) 0 + factor * b.getD i 0) % 2 ^ 32)
    refine ⟨by rw [List.length_set, length], fits.set _ (Nat.mod_lt _ (by decide)),
      Nat.div_lt_of_lt_mul (by omega), ?_⟩
    rw [value_take_succ (by omega : i < b.length)]
    generalize (carry + words.getD (i + j) 0 + factor * b.getD i 0) % 2 ^ 32 = low at *
    generalize (carry + words.getD (i + j) 0 + factor * b.getD i 0) / 2 ^ 32 = high at *
    have up : 2 ^ (32 * (i + 1 + j)) = 2 ^ 32 * 2 ^ (32 * (i + j)) := by
      rw [← Nat.pow_add]
      congr 1
      omega
    have shared : 2 ^ (32 * (i + j)) = 2 ^ (32 * i) * 2 ^ (32 * j) := by
      rw [← Nat.pow_add]
      congr 1
      omega
    have scaled := congrArg (fun sum => sum * 2 ^ (32 * (i + j))) division
    rw [up]
    refine @Nat.add_right_cancel _ (words.getD (i + j) 0 * 2 ^ (32 * (i + j))) _ ?_
    calc value 32 (words.set (i + j) low) + high * (2 ^ 32 * 2 ^ (32 * (i + j))) +
          words.getD (i + j) 0 * 2 ^ (32 * (i + j))
        = value 32 words + (low + 2 ^ 32 * high) * 2 ^ (32 * (i + j)) := by
          rw [Nat.add_right_comm, replaced]
          ring
      _ = value 32 words + carry * 2 ^ (32 * (i + j)) +
            words.getD (i + j) 0 * 2 ^ (32 * (i + j)) +
            factor * b.getD i 0 * 2 ^ (32 * (i + j)) := by
          rw [scaled]
          ring
      _ = value 32 pn + factor * (value 32 (b.take i) + b.getD i 0 * 2 ^ (32 * i)) *
            2 ^ (32 * j) + words.getD (i + j) 0 * 2 ^ (32 * (i + j)) := by
          rw [total, shared]
          ring

/-- What words and a carry out of them sum up to, modulo the width. -/
theorem eq_mod_of_carry {pn : List Nat} (bounded : Bounded 32 pn) {carry total : Nat}
    (sum : value 32 pn + carry * 2 ^ BITS pn = total) : value 32 pn = total % 2 ^ BITS pn := by
  rw [← sum, Nat.add_mul_mod_self_right, BITS, Nat.mod_eq_of_lt (value_lt bounded)]

/-- **The product**, modulo the width. -/
theorem value_multiply {a b : List Nat} (bounded : Bounded 32 a) (bounded' : Bounded 32 b)
    (width : b.length = a.length) :
    (multiply a b).length = a.length ∧ Bounded 32 (multiply a b) ∧
      value 32 (multiply a b) = value 32 a * value 32 b % 2 ^ BITS a := by
  have looped := @foldl_range_induct _ (fun j pn => pn.length = a.length ∧ Bounded 32 pn ∧
    value 32 pn = value 32 (a.take j) * value 32 b % 2 ^ BITS a)
    (fun pn j => (multiplyRow pn (a.getD j 0) b j).1) a.length (List.replicate a.length 0)
    ⟨List.length_replicate, bounded_replicate_zero _, by
      rw [value_replicate_zero, List.take_zero, value_nil, Nat.zero_mul, Nat.zero_mod]⟩ ?_
  · rw [List.take_length] at looped
    exact looped
  · rintro j pn inside ⟨length, fits, total⟩
    obtain ⟨same, fits', sum⟩ := value_multiplyRow fits bounded' (bounded.getD j)
      (width.trans length.symm) (by omega : j ≤ pn.length)
    refine ⟨same.trans length, fits', ?_⟩
    have modulus : BITS (multiplyRow pn (a.getD j 0) b j).1 = BITS a := by
      rw [BITS, BITS, same, length]
    have modulus' : BITS pn = BITS a := by rw [BITS, BITS, length]
    -- The words of the other number that are left out do not count in the width.
    obtain ⟨rest, whole⟩ : ∃ rest, value 32 b =
        value 32 (b.take (pn.length - j)) + 2 ^ (32 * (pn.length - j)) * rest := by
      refine ⟨value 32 (b.drop (pn.length - j)), ?_⟩
      have joined := @Nat.ofDigits_append (2 ^ 32) (b.take (pn.length - j))
        (b.drop (pn.length - j))
      rw [List.take_append_drop, List.length_take_of_le (by omega), ← Nat.pow_mul] at joined
      exact joined
    have lost : 2 ^ (32 * j) * 2 ^ (32 * (pn.length - j)) = 2 ^ BITS a := by
      rw [← Nat.pow_add, ← modulus', BITS]
      congr 1
      omega
    rw [modulus', ← modulus] at sum
    have reduced := eq_mod_of_carry fits' sum
    rw [modulus] at reduced
    rw [reduced, total, Nat.mod_add_mod, value_take_succ inside]
    have expanded : (value 32 (a.take j) + a.getD j 0 * 2 ^ (32 * j)) * value 32 b =
        value 32 (a.take j) * value 32 b +
          a.getD j 0 * value 32 (b.take (pn.length - j)) * 2 ^ (32 * j) +
            a.getD j 0 * rest * 2 ^ BITS a := by
      rw [← lost, Nat.add_mul]
      nth_rewrite 2 [whole]
      ring
    rw [expanded, Nat.add_mul_mod_self_right]

/-- **The sum**, modulo the width. -/
theorem value_add {a b : List Nat} (bounded : Bounded 32 a) (bounded' : Bounded 32 b)
    (width : b.length = a.length) :
    (add a b).length = a.length ∧ Bounded 32 (add a b) ∧
      value 32 (add a b) = (value 32 a + value 32 b) % 2 ^ BITS a := by
  have round : addRound b = multiplyRound 1 b 0 := by
    funext state i
    rw [addRound, multiplyRound, Nat.one_mul]
    rfl
  have row : add a b = (multiplyRow a 1 b 0).1 := by
    rw [add, round, multiplyRow]
    rfl
  obtain ⟨same, fits, sum⟩ := value_multiplyRow bounded bounded' (by decide : 1 < 2 ^ 32) width
    (Nat.zero_le _)
  have modulus : BITS (multiplyRow a 1 b 0).1 = BITS a := by rw [BITS, BITS, same]
  rw [Nat.sub_zero, ← width, List.take_length, Nat.one_mul, Nat.mul_zero, Nat.pow_zero,
    Nat.mul_one, ← modulus] at sum
  rw [row, ← modulus]
  exact ⟨same, fits, eq_mod_of_carry fits sum⟩

/-- One more, modulo the width. -/
theorem value_increment {pn : List Nat} (bounded : Bounded 32 pn) :
    (increment pn).length = pn.length ∧ Bounded 32 (increment pn) ∧
      value 32 (increment pn) = (value 32 pn + 1) % 2 ^ BITS pn := by
  induction pn with
  | nil => exact ⟨rfl, bounded, rfl⟩
  | cons word pn ih =>
      obtain ⟨length, fits, total⟩ := ih bounded.tail
      have small := bounded word (.head _)
      have rest := value_lt bounded.tail
      have wide : 2 ^ BITS (word :: pn) = 2 ^ 32 * 2 ^ BITS pn := by
        rw [BITS, BITS, List.length_cons, Nat.mul_succ, Nat.add_comm, Nat.pow_add]
      rw [increment]
      by_cases full : (word + 1) % 2 ^ 32 = 0
      · have top : word + 1 = 2 ^ 32 := by omega
        rw [if_pos full]
        refine ⟨by rw [List.length_cons, List.length_cons, length], ?_, ?_⟩
        · intro other mem
          obtain rfl | later := List.mem_cons.mp mem
          · exact Nat.two_pow_pos 32
          · exact fits other later
        · have carried : word + 2 ^ 32 * value 32 pn + 1 = 2 ^ 32 * (value 32 pn + 1) := by omega
          rw [value_cons, value_cons, total, wide, Nat.zero_add, carried, Nat.mul_mod_mul_left]
      · have next : (word + 1) % 2 ^ 32 = word + 1 := Nat.mod_eq_of_lt (by omega)
        rw [if_neg full, next]
        refine ⟨rfl, ?_, ?_⟩
        · intro other mem
          obtain rfl | later := List.mem_cons.mp mem
          · omega
          · exact bounded.tail other later
        · have below : word + 2 ^ 32 * value 32 pn + 1 < 2 ^ 32 * 2 ^ BITS pn := by
            have least : 2 ^ 32 * (value 32 pn + 1) ≤ 2 ^ 32 * 2 ^ BITS pn :=
              Nat.mul_le_mul_left _ rest
            omega
          rw [value_cons, value_cons, wide, Nat.mod_eq_of_lt below]
          omega

/-- The complement of all words. -/
theorem value_complement {pn : List Nat} (bounded : Bounded 32 pn) :
    Bounded 32 (pn.map fun word => 2 ^ 32 - 1 - word) ∧
      value 32 (pn.map fun word => 2 ^ 32 - 1 - word) + value 32 pn + 1 = 2 ^ BITS pn := by
  constructor
  · intro word mem
    obtain ⟨other, -, rfl⟩ := List.mem_map.mp mem
    omega
  · induction pn with
    | nil => rfl
    | cons word pn ih =>
        have small := bounded word (.head _)
        have rest := ih bounded.tail
        have wide : 2 ^ BITS (word :: pn) = 2 ^ 32 * 2 ^ BITS pn := by
          rw [BITS, BITS, List.length_cons, Nat.mul_succ, Nat.add_comm, Nat.pow_add]
        rw [List.map_cons, value_cons, value_cons, wide, ← rest]
        omega

/-- A smaller number is taken off. -/
theorem value_subtract {a b : List Nat} (bounded : Bounded 32 a) (bounded' : Bounded 32 b)
    (width : b.length = a.length) (less : value 32 b ≤ value 32 a) :
    (subtract a b).length = a.length ∧ Bounded 32 (subtract a b) ∧
      value 32 (subtract a b) = value 32 a - value 32 b := by
  obtain ⟨fits, opposite⟩ := value_complement bounded'
  obtain ⟨length, fits', negated⟩ := value_increment fits
  have count : (b.map fun word => 2 ^ 32 - 1 - word).length = b.length := List.length_map _
  have modulus : BITS (b.map fun word => 2 ^ 32 - 1 - word) = BITS a := by
    rw [BITS, BITS, count, width]
  have modulus' : BITS b = BITS a := by rw [BITS, BITS, width]
  obtain ⟨length', fits'', total⟩ := value_add bounded fits' (length.trans (count.trans width))
  refine ⟨length', fits'', ?_⟩
  have bound : value 32 a < 2 ^ BITS a := value_lt bounded
  change value 32 (add a (negate b)) = _
  rw [modulus'] at opposite
  rw [negate, total, negated, modulus, Nat.add_mod_mod]
  have sum : value 32 a + (value 32 (b.map fun word => 2 ^ 32 - 1 - word) + 1) =
      value 32 a - value 32 b + 2 ^ BITS a := by
    omega
  rw [sum, Nat.add_mod_right, Nat.mod_eq_of_lt (by omega)]

/-! ## Comparison and size -/

/-- The loop of `CompareTo`, from the highest of some words down. -/
def compareFrom (a b : List Nat) : Nat → Ordering
  | 0 => .eq
  | i + 1 =>
      if a.getD i 0 < b.getD i 0 then .lt
      else if a.getD i 0 > b.getD i 0 then .gt else compareFrom a b i

/-- `CompareTo`. -/
def compareTo (a b : List Nat) : Ordering := compareFrom a b a.length

/-- The loop of `bits` within a word, from a bit down. -/
def bitsOfWord (word : Nat) : Nat → Nat
  | 0 => 1
  | bits + 1 => if word &&& (1 <<< (bits + 1)) ≠ 0 then bits + 2 else bitsOfWord word bits

/-- The loop of `bits`, from the highest of some words down. -/
def bitsFrom (pn : List Nat) : Nat → Nat
  | 0 => 0
  | pos + 1 =>
      if pn.getD pos 0 ≠ 0 then 32 * pos + bitsOfWord (pn.getD pos 0) 31 else bitsFrom pn pos

/-- `bits`. -/
def bits (pn : List Nat) : Nat := bitsFrom pn pn.length

/-- The order of the highest words that differ is that of the numbers. -/
theorem compareFrom_eq {a b : List Nat} (bounded : Bounded 32 a) (bounded' : Bounded 32 b)
    {count : Nat} (inside : count ≤ a.length) (inside' : count ≤ b.length) :
    compareFrom a b count = compare (value 32 (a.take count)) (value 32 (b.take count)) := by
  induction count with
  | zero => rfl
  | succ i ih =>
      have below := value_take_lt bounded (by omega : i ≤ a.length)
      have below' := value_take_lt bounded' (by omega : i ≤ b.length)
      rw [compareFrom, value_take_succ (by omega), value_take_succ (by omega)]
      split
      · rename_i less
        refine (compare_lt_iff_lt.mpr ?_).symm
        have next : (a.getD i 0 + 1) * 2 ^ (32 * i) ≤ b.getD i 0 * 2 ^ (32 * i) :=
          Nat.mul_le_mul_right _ less
        rw [Nat.add_mul, Nat.one_mul] at next
        omega
      · split
        · rename_i more
          refine (compare_gt_iff_gt.mpr ?_).symm
          have next : (b.getD i 0 + 1) * 2 ^ (32 * i) ≤ a.getD i 0 * 2 ^ (32 * i) :=
            Nat.mul_le_mul_right _ more
          rw [Nat.add_mul, Nat.one_mul] at next
          omega
        · have same : a.getD i 0 = b.getD i 0 := by omega
          rw [ih (by omega) (by omega), same]
          rcases lt_trichotomy (value 32 (a.take i)) (value 32 (b.take i)) with less | equal | more
          · rw [compare_lt_iff_lt.mpr less, compare_lt_iff_lt.mpr (by omega)]
          · rw [equal, compare_eq_iff_eq.mpr rfl, compare_eq_iff_eq.mpr rfl]
          · rw [compare_gt_iff_gt.mpr more, compare_gt_iff_gt.mpr (by omega)]

theorem compareTo_eq {a b : List Nat} (bounded : Bounded 32 a) (bounded' : Bounded 32 b)
    (width : b.length = a.length) : compareTo a b = compare (value 32 a) (value 32 b) := by
  have compared := compareFrom_eq bounded bounded' (Nat.le_refl a.length) (by omega)
  rw [List.take_length, ← width, List.take_length] at compared
  rw [compareTo, ← width]
  exact compared

/-- The highest bit of a word. -/
theorem bitsOfWord_spec {word count : Nat} (positive : word ≠ 0)
    (small : word < 2 ^ (count + 1)) :
    0 < bitsOfWord word count ∧ 2 ^ (bitsOfWord word count - 1) ≤ word ∧
      word < 2 ^ bitsOfWord word count := by
  induction count with
  | zero =>
      have one : word = 1 := by omega
      subst one
      decide
  | succ bits ih =>
      have mask : word &&& (1 <<< (bits + 1)) =
          (word.testBit (bits + 1)).toNat * 2 ^ (bits + 1) := by
        rw [Nat.one_shiftLeft]
        exact Nat.and_two_pow word (bits + 1)
      rw [bitsOfWord, mask]
      by_cases set : word.testBit (bits + 1) = true
      · rw [set, if_pos (by simp)]
        exact ⟨Nat.succ_pos _, Nat.ge_two_pow_of_testBit set, small⟩
      · have clear : word.testBit (bits + 1) = false := by simpa using set
        rw [clear, if_neg (by simp)]
        refine ih ?_
        rw [Nat.testBit_eq_decide_div_mod_eq, decide_eq_false_iff_not] at clear
        have half : word / 2 ^ (bits + 1) < 2 := by
          refine Nat.div_lt_of_lt_mul ?_
          rwa [← Nat.pow_succ]
        have none : word / 2 ^ (bits + 1) = 0 := by
          generalize word / 2 ^ (bits + 1) = quotient at clear half
          omega
        exact (Nat.div_eq_zero_iff_lt (Nat.two_pow_pos _)).mp none

/-- The highest bit of some words. -/
theorem bitsFrom_spec {pn : List Nat} (bounded : Bounded 32 pn) {count : Nat}
    (inside : count ≤ pn.length) :
    value 32 (pn.take count) < 2 ^ bitsFrom pn count ∧
      (0 < bitsFrom pn count → 2 ^ (bitsFrom pn count - 1) ≤ value 32 (pn.take count)) := by
  induction count with
  | zero =>
      rw [List.take_zero, value_nil]
      exact ⟨Nat.two_pow_pos _, fun none => absurd none (Nat.lt_irrefl 0)⟩
  | succ pos ih =>
      have below := value_take_lt bounded (by omega : pos ≤ pn.length)
      rw [bitsFrom, value_take_succ (by omega)]
      by_cases zero : pn.getD pos 0 = 0
      · rw [if_neg (not_not.mpr zero), zero, Nat.zero_mul, Nat.add_zero]
        exact ih (by omega)
      · obtain ⟨some, least, most⟩ := @bitsOfWord_spec _ 31 zero (bounded.getD pos)
        rw [if_pos zero]
        generalize bitsOfWord (pn.getD pos 0) 31 = top at *
        have place : 32 * pos + top - 1 = top - 1 + 32 * pos := by omega
        rw [place, Nat.add_comm (32 * pos), Nat.pow_add, Nat.pow_add]
        constructor
        · have next : (pn.getD pos 0 + 1) * 2 ^ (32 * pos) ≤ 2 ^ top * 2 ^ (32 * pos) :=
            Nat.mul_le_mul_right _ most
          rw [Nat.add_mul, Nat.one_mul] at next
          omega
        · intro _
          have scaled : 2 ^ (top - 1) * 2 ^ (32 * pos) ≤ pn.getD pos 0 * 2 ^ (32 * pos) :=
            Nat.mul_le_mul_right _ least
          omega

/-- **The size of a number**: it is below the power of two, and not below the one before. -/
theorem bits_spec {pn : List Nat} (bounded : Bounded 32 pn) :
    value 32 pn < 2 ^ bits pn ∧ (0 < bits pn → 2 ^ (bits pn - 1) ≤ value 32 pn) := by
  have size := bitsFrom_spec bounded (Nat.le_refl pn.length)
  rwa [List.take_length] at size

/-! ## Division -/

/-- The loop of `operator/=`, for a shift below `rounds`: the quotient. -/
def divideLoop : Nat → List Nat → List Nat → List Nat → List Nat
  | 0, _, _, pn => pn
  | shift + 1, num, div, pn =>
      if compareTo num div ≠ .lt then
        divideLoop shift (subtract num div) (shiftRight div 1)
          (orAt pn (shift / 32) (1 <<< (shift % 32)))
      else divideLoop shift num (shiftRight div 1) pn

/-- `operator/=`, with nothing where it throws. -/
def divide (a b : List Nat) : Option (List Nat) :=
  let num_bits := bits a
  let div_bits := bits b
  if div_bits = 0 then none
  else if div_bits > num_bits then some (List.replicate a.length 0)
  else
    let shift := num_bits - div_bits
    some (divideLoop (shift + 1) a (shiftLeft b shift) (List.replicate a.length 0))

/-- A bit that is not in a number is added to it. -/
theorem or_two_pow_eq_add {total shift : Nat} (multiple : 2 ^ (shift + 1) ∣ total) :
    total ||| 2 ^ shift = total + 2 ^ shift := by
  obtain ⟨factor, rfl⟩ := multiple
  exact (Nat.two_pow_add_eq_or_of_lt (Nat.pow_lt_pow_right (by decide) (Nat.lt_succ_self _))
    factor).symm

/-- **The long division.** Before each round the divisor is shifted once more than after it, what
is left is below twice the divisor as it is shifted, and the quotient has no bit that low. -/
theorem value_divideLoop {rounds divisor : Nat} {num div pn : List Nat} (bounded : Bounded 32 num)
    (bounded' : Bounded 32 div) (bounded'' : Bounded 32 pn) (width : div.length = num.length)
    (width' : pn.length = num.length)
    (shifted : 0 < rounds → value 32 div = divisor * 2 ^ (rounds - 1))
    (left : value 32 num < divisor * 2 ^ rounds) (multiple : 2 ^ rounds ∣ value 32 pn)
    (inside : rounds ≤ BITS num) :
    (divideLoop rounds num div pn).length = num.length ∧
      Bounded 32 (divideLoop rounds num div pn) ∧
      ∃ remainder < divisor, value 32 (divideLoop rounds num div pn) * divisor + remainder =
        value 32 pn * divisor + value 32 num := by
  induction rounds generalizing num div pn with
  | zero =>
      rw [Nat.pow_zero, Nat.mul_one] at left
      exact ⟨width', bounded'', value 32 num, left, rfl⟩
  | succ shift ih =>
      have aligned := shifted (Nat.succ_pos _)
      rw [Nat.add_sub_cancel] at aligned
      obtain ⟨same, fits, halved⟩ := value_shiftRight bounded' 1
      have next : 0 < shift → value 32 (shiftRight div 1) = divisor * 2 ^ (shift - 1) := by
        intro more
        obtain ⟨lower, rfl⟩ : ∃ lower, shift = lower + 1 := ⟨shift - 1, by omega⟩
        rw [halved, aligned, Nat.add_sub_cancel, Nat.pow_succ, Nat.pow_one, ← Nat.mul_assoc,
          Nat.mul_div_cancel _ (by decide)]
      have half : divisor * 2 ^ (shift + 1) = 2 * (divisor * 2 ^ shift) := by
        rw [Nat.pow_succ]
        ring
      rw [divideLoop, compareTo_eq bounded bounded' width]
      by_cases less : value 32 num < value 32 div
      · rw [compare_lt_iff_lt.mpr less, if_neg (not_not.mpr rfl)]
        exact ih bounded fits bounded'' (same.trans width) width' next (aligned ▸ less)
          (Nat.dvd_trans (Nat.pow_dvd_pow 2 (Nat.le_succ shift)) multiple) (by omega)
      · have enough : value 32 div ≤ value 32 num := Nat.not_lt.mp less
        have not_lt : compare (value 32 num) (value 32 div) ≠ .lt := by
          rwa [Ne, compare_lt_iff_lt]
        obtain ⟨same', fits', rest⟩ := value_subtract bounded bounded' width enough
        have word : 1 <<< (shift % 32) < 2 ^ 32 := by
          rw [Nat.one_shiftLeft]
          exact Nat.pow_lt_pow_right (by decide) (Nat.mod_lt _ (by decide))
        have place : shift / 32 < pn.length := by
          unfold BITS at inside
          omega
        have set : value 32 (orAt pn (shift / 32) (1 <<< (shift % 32))) =
            value 32 pn + 2 ^ shift := by
          rw [value_orAt bounded'' place word, ← Nat.shiftLeft_add, Nat.one_shiftLeft,
            show shift % 32 + 32 * (shift / 32) = shift by omega]
          exact or_two_pow_eq_add multiple
        have size : BITS (subtract num div) = BITS num := by rw [BITS, BITS, same']
        rw [if_pos not_lt]
        obtain ⟨length, kept, remainder, small, total⟩ := ih fits' fits
          (bounded''.orAt (shift / 32) word) (same.trans (width.trans same'.symm))
          ((length_orAt ..).trans (width'.trans same'.symm)) next
          (by rw [rest, aligned]; omega)
          (by
            rw [set]
            exact Nat.dvd_add
              (Nat.dvd_trans (Nat.pow_dvd_pow 2 (Nat.le_succ shift)) multiple) (dvd_refl _))
          (by omega)
        refine ⟨length.trans same', kept, remainder, small, ?_⟩
        rw [total, set, rest, Nat.add_mul, aligned, Nat.mul_comm (2 ^ shift)]
        omega

/-- **The quotient.** Division by any number but zero is exact. -/
theorem value_divide {a b : List Nat} (bounded : Bounded 32 a) (bounded' : Bounded 32 b)
    (width : b.length = a.length) (positive : 0 < value 32 b) :
    ∃ quotient, divide a b = some quotient ∧ quotient.length = a.length ∧
      Bounded 32 quotient ∧ value 32 quotient = value 32 a / value 32 b := by
  obtain ⟨numBelow, numAbove⟩ := bits_spec bounded
  obtain ⟨divBelow, divAbove⟩ := bits_spec bounded'
  have some_ : bits b ≠ 0 := by
    intro none
    rw [none] at divBelow
    omega
  have divLeast := divAbove (Nat.pos_of_ne_zero some_)
  unfold divide
  rw [if_neg some_]
  dsimp only
  by_cases more : bits b > bits a
  · rw [if_pos more]
    refine ⟨_, rfl, List.length_replicate, bounded_replicate_zero _, ?_⟩
    have less : value 32 a < value 32 b := by
      refine lt_of_lt_of_le numBelow (le_trans ?_ divLeast)
      exact Nat.pow_le_pow_right (by decide) (by omega)
    rw [value_replicate_zero, Nat.div_eq_of_lt less]
  · rw [if_neg more]
    have numBits : bits a ≤ BITS a := by
      by_contra beyond
      have least := numAbove (by omega)
      have most : 2 ^ BITS a ≤ 2 ^ (bits a - 1) := Nat.pow_le_pow_right (by decide) (by omega)
      have bound : value 32 a < 2 ^ BITS a := value_lt bounded
      omega
    obtain ⟨same, fits, shifted⟩ := value_shiftLeft bounded' (bits a - bits b)
    have modulus : BITS b = BITS a := by rw [BITS, BITS, width]
    have aligned : value 32 (shiftLeft b (bits a - bits b)) =
        value 32 b * 2 ^ (bits a - bits b) := by
      rw [shifted, modulus]
      refine Nat.mod_eq_of_lt ?_
      calc value 32 b * 2 ^ (bits a - bits b)
          < 2 ^ bits b * 2 ^ (bits a - bits b) :=
            Nat.mul_lt_mul_of_pos_right divBelow (Nat.two_pow_pos _)
        _ = 2 ^ bits a := by rw [← Nat.pow_add, Nat.add_sub_cancel' (by omega)]
        _ ≤ 2 ^ BITS a := Nat.pow_le_pow_right (by decide) numBits
    have left : value 32 a < value 32 b * 2 ^ (bits a - bits b + 1) := by
      calc value 32 a < 2 ^ bits a := numBelow
        _ = 2 ^ (bits b - 1) * 2 ^ (bits a - bits b + 1) := by
            rw [← Nat.pow_add]
            congr 1
            omega
        _ ≤ value 32 b * 2 ^ (bits a - bits b + 1) := Nat.mul_le_mul_right _ divLeast
    obtain ⟨length, kept, remainder, small, total⟩ :=
      @value_divideLoop (bits a - bits b + 1) (value 32 b) a (shiftLeft b (bits a - bits b))
        (List.replicate a.length 0) bounded fits (bounded_replicate_zero _) (same.trans width)
        List.length_replicate (fun _ => aligned) left
        (by rw [value_replicate_zero]; exact dvd_zero _) (by omega)
    rw [value_replicate_zero, Nat.zero_mul, Nat.zero_add] at total
    refine ⟨_, rfl, length, kept, ?_⟩
    rw [← total, Nat.mul_comm, Nat.mul_add_div positive, Nat.div_eq_of_lt small]
    rfl

end GiantCore.BaseUint
