import Mathlib.Algebra.Order.Ring.Int
import Mathlib.Algebra.Order.Ring.Nat
import Mathlib.Tactic.Common

/-! # Numbers in a variable number of bytes

A number is written in base 128 from the highest digit down. Every byte but the last has its high
bit set, and one is subtracted from its digit, so that each number has one encoding. The writer
makes the digits from the lowest up in a buffer; the reader counts modulo a power of two.
-/

namespace GiantCore.Foundation.VarInt

/-- A digit, with the high bit if another byte follows. -/
def digit (more : Bool) (value : Int) : UInt8 :=
  UInt8.ofNat ((value % 128).toNat + if more then 128 else 0)

/-- Write a number before some bytes, in a buffer of a given size. -/
def write : Nat → Bool → Int → List UInt8 → List UInt8
  | 0, _, _, tail => tail
  | room + 1, more, value, tail =>
      if value ≤ 127 then digit more value :: tail
      else write room true (value / 128 - 1) (digit more value :: tail)

/-- The number of bytes that are written. -/
def size : Nat → Int → Nat
  | 0, _ => 0
  | room + 1, value => if value ≤ 127 then 1 else size room (value / 128 - 1) + 1

/-- Read a number of some width, from a number so far. -/
def read (width : Nat) (value : Nat) : List UInt8 → Option (Nat × List UInt8)
  | [] => none
  | byte :: rest =>
      let next := (value * 128 + byte.toNat % 128) % 2 ^ width
      if byte.toNat ≥ 128 then read width ((next + 1) % 2 ^ width) rest else some (next, rest)

theorem length_write (room : Nat) (more : Bool) (value : Int) (tail : List UInt8) :
    (write room more value tail).length = size room value + tail.length := by
  induction room generalizing more value tail with
  | zero => simp [write, size]
  | succ room ih =>
      unfold write size
      split
      · rw [List.length_cons]
        omega
      · rw [ih, List.length_cons]
        omega

/-- The bytes of a number stand before the tail. -/
theorem write_append (room : Nat) (more : Bool) (value : Int) (tail rest : List UInt8) :
    write room more value tail ++ rest = write room more value (tail ++ rest) := by
  induction room generalizing more value tail with
  | zero => rfl
  | succ room ih =>
      unfold write
      split
      · rfl
      · rw [ih, List.cons_append]

/-- What a reader does after a number: it goes on if the last byte says so. -/
def resume (width : Nat) (more : Bool) (value : Nat) (tail : List UInt8) :
    Option (Nat × List UInt8) :=
  if more then read width ((value + 1) % 2 ^ width) tail else some (value, tail)

theorem toNat_digit (more : Bool) (value : Nat) :
    (digit more value).toNat = value % 128 + if more then 128 else 0 := by
  have low : ((value : Int) % 128).toNat = value % 128 := by omega
  rw [digit, low, UInt8.toNat_ofNat']
  split <;> omega

/-- Reading the last digit of a number. -/
theorem read_digit {width value high : Nat} (more : Bool) (tail : List UInt8)
    (joined : high * 128 + value % 128 = value) (fits : value < 2 ^ width) :
    read width high (digit more value :: tail) = resume width more value tail := by
  have low : (digit more value).toNat % 128 = value % 128 := by
    rw [toNat_digit]
    split <;> omega
  unfold read resume
  rw [low, joined, Nat.mod_eq_of_lt fits]
  cases more with
  | true =>
      rw [toNat_digit, if_pos rfl, if_pos rfl]
      exact if_pos (by omega)
  | false =>
      rw [toNat_digit, if_neg Bool.false_ne_true, if_neg Bool.false_ne_true]
      exact if_neg (by omega)

/-- **Reading back.** A reader of enough bits gets the number that a buffer of enough bytes held. -/
theorem read_write {width room value : Nat} (more : Bool) (tail : List UInt8)
    (enough : value < 128 ^ (room + 1)) (fits : value < 2 ^ width) :
    read width 0 (write (room + 1) more value tail) = resume width more value tail := by
  induction room generalizing more value tail with
  | zero =>
      rw [write, if_pos (by omega)]
      exact read_digit more tail (by omega) fits
  | succ room ih =>
      unfold write
      split
      · rename_i small
        exact read_digit more tail (by omega) fits
      · rename_i large
        have carried : (value : Int) / 128 - 1 = (value / 128 - 1 : Nat) := by omega
        have less : value / 128 < 128 ^ (room + 1) :=
          Nat.div_lt_of_lt_mul (by rwa [Nat.pow_succ, Nat.mul_comm] at enough)
        rw [carried, ih true _ (by omega) (by omega), resume, if_pos rfl,
          Nat.sub_add_cancel (by omega), Nat.mod_eq_of_lt (by omega)]
        exact read_digit more tail (by omega) fits

/-- A number is read back where the buffer holds all numbers of the width. -/
theorem read_write_eq {width room value : Nat} (holds : 2 ^ width ≤ 128 ^ (room + 1))
    (fits : value < 2 ^ width) (tail : List UInt8) :
    read width 0 (write (room + 1) false value tail) = some (value, tail) :=
  read_write false tail (lt_of_lt_of_le fits holds) fits

/-- A byte without the high bit is a number. -/
theorem read_byte {width : Nat} {byte : UInt8} (tail : List UInt8) (low : byte.toNat < 128)
    (fits : 128 ≤ 2 ^ width) : read width 0 (byte :: tail) = some (byte.toNat, tail) := by
  unfold read
  rw [Nat.zero_mul, Nat.zero_add, Nat.mod_eq_of_lt low,
    Nat.mod_eq_of_lt (lt_of_lt_of_le low fits), if_neg (Nat.not_le.mpr low)]

/-- The least numbers that take another byte, for up to five bytes. -/
def bounds : List Nat := [128, 16512, 2113664, 270549120]

/-- **The size of a number below `2 ^ 32`** goes up at the bounds. -/
theorem size_cases {value : Nat} (fits : value < 2 ^ 32) :
    value < 128 ∧ size 5 value = 1 ∨ 128 ≤ value ∧ value < 16512 ∧ size 5 value = 2 ∨
      16512 ≤ value ∧ value < 2113664 ∧ size 5 value = 3 ∨
        2113664 ≤ value ∧ value < 270549120 ∧ size 5 value = 4 ∨
          270549120 ≤ value ∧ size 5 value = 5 := by
  simp only [size]
  split
  · omega
  · split
    · omega
    · split
      · omega
      · split
        · omega
        · split <;> omega

/-- Two numbers have one size if no bound is between them. -/
theorem size_eq_iff {first second : Nat} (below : first < 2 ^ 32) (fits : second < 2 ^ 32) :
    size 5 first = size 5 second ↔ ∀ bound ∈ bounds, bound ≤ first ↔ bound ≤ second := by
  have one := size_cases below
  have two := size_cases fits
  simp only [bounds, List.forall_mem_cons, List.not_mem_nil, false_imp_iff, implies_true, and_true]
  omega

end GiantCore.Foundation.VarInt
