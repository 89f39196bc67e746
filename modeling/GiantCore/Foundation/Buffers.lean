import Mathlib.Tactic.Common

/-! # Buffers

A buffer is a list whose length stays, or is set; its places are written from a position on.
-/

namespace GiantCore.Foundation.Buffers

variable {α : Type*}

/-- The elements of `source` are written from a position on. -/
def overwrite (buffer : List α) (pos : Nat) (source : List α) : List α :=
  buffer.take pos ++ (source ++ buffer.drop (pos + source.length))

/-- The length is set, and new places get `fill`. -/
def resize (fill : α) (buffer : List α) (size : Nat) : List α :=
  buffer.take size ++ List.replicate (size - buffer.length) fill

theorem take_overwrite {buffer source : List α} {pos : Nat} (inside : pos ≤ buffer.length) :
    (overwrite buffer pos source).take (pos + source.length) = buffer.take pos ++ source := by
  have front : (buffer.take pos).length = pos := List.length_take_of_le inside
  rw [overwrite, ← List.append_assoc]
  exact List.take_left' (by rw [List.length_append, front])

theorem length_overwrite {buffer source : List α} {pos : Nat}
    (inside : pos + source.length ≤ buffer.length) :
    (overwrite buffer pos source).length = buffer.length := by
  rw [overwrite, List.length_append, List.length_append, List.length_take, List.length_drop]
  omega

/-- A field is written over its places. -/
theorem overwrite_append (front old new rest : List α) (same : old.length = new.length) :
    overwrite (front ++ (old ++ rest)) front.length new = front ++ (new ++ rest) := by
  rw [overwrite, List.take_left, ← same, ← List.drop_drop, List.drop_left, List.drop_left]

theorem length_resize (fill : α) (buffer : List α) (size : Nat) :
    (resize fill buffer size).length = size := by
  rw [resize, List.length_append, List.length_take, List.length_replicate]
  omega

theorem take_resize (fill : α) {buffer : List α} {pos size : Nat} (inside : pos ≤ buffer.length)
    (fits : pos ≤ size) : (resize fill buffer size).take pos = buffer.take pos := by
  rw [resize, List.take_append_of_le_length (by rw [List.length_take]; omega), List.take_take,
    Nat.min_eq_left fits]

end GiantCore.Foundation.Buffers
