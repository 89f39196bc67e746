import Mathlib.Tactic.Common

/-! # Blocks of a stream

A stream is consumed in blocks of one size, each by a step of a state; what is less than a block
waits. How the stream was cut before it is consumed does not matter.
-/

namespace GiantCore.Foundation.BlockStream

variable {σ α : Type*} (size : Nat) (transform : σ → List α → σ)

/-- The state after all whole blocks, and what is left. -/
def consume (state : σ) (data : List α) : σ × List α :=
  if _whole : 0 < size ∧ size ≤ data.length then
    consume (transform state (data.take size)) (data.drop size)
  else (state, data)
termination_by data.length
decreasing_by
  rw [List.length_drop]
  omega

variable {size transform}

theorem consume_of_le {data : List α} (whole : 0 < size ∧ size ≤ data.length) (state : σ) :
    consume size transform state data =
      consume size transform (transform state (data.take size)) (data.drop size) := by
  rw [consume, dif_pos whole]

theorem consume_of_not {data : List α} (part : ¬ (0 < size ∧ size ≤ data.length)) (state : σ) :
    consume size transform state data = (state, data) := by
  rw [consume, dif_neg part]

/-- A block is taken. -/
theorem consume_block (positive : 0 < size) {block : List α} (whole : block.length = size)
    (state : σ) (rest : List α) :
    consume size transform state (block ++ rest) =
      consume size transform (transform state block) rest := by
  rw [consume_of_le ⟨positive, by rw [List.length_append]; omega⟩, ← whole, List.take_left,
    List.drop_left]

/-- **A stream may be cut anywhere.** -/
theorem consume_append (state : σ) (first second : List α) :
    consume size transform state (first ++ second) =
      consume size transform (consume size transform state first).1
        ((consume size transform state first).2 ++ second) := by
  induction state, first using consume.induct size transform with
  | case1 state first whole ih =>
      have block : (first.take size).length = size := List.length_take_of_le whole.2
      have cut := @consume_block _ _ _ transform whole.1 _ block state (first.drop size ++ second)
      rw [← List.append_assoc, List.take_append_drop] at cut
      rw [cut, ih, consume_of_le whole]
  | case2 state first none => rw [consume_of_not none]

theorem length_left (positive : 0 < size) (state : σ) (data : List α) :
    (consume size transform state data).2.length = data.length % size := by
  induction state, data using consume.induct size transform with
  | case1 state data whole ih =>
      rw [consume_of_le whole, ih, List.length_drop, Nat.mod_eq_sub_mod whole.2]
  | case2 state data none =>
      rw [consume_of_not none, Nat.mod_eq_of_lt (by omega)]

end GiantCore.Foundation.BlockStream
