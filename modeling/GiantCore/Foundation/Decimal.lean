import Mathlib

/-! # Texts made of numbers

Numbers are written in decimal and put one after another, with nothing between them. Such
a text gives the numbers back only together with the places where it is cut.
-/

namespace GiantCore.Foundation.Decimal

theorem toString_injective {first second : Int} (same : toString first = toString second) :
    first = second := Int.repr_injective same

/-- Two texts with the same end cut at the same place. -/
theorem append_inj_right {front front' back back' : String} (same : front ++ back = front' ++ back')
    (length : back.length = back'.length) : front = front' ∧ back = back' := by
  have lists : front.toList ++ back.toList = front'.toList ++ back'.toList := by
    rw [← String.toList_append, ← String.toList_append, same]
  have lengths : back.toList.length = back'.toList.length := by
    rw [String.length_toList, String.length_toList, length]
  obtain ⟨fronts, backs⟩ := List.append_inj' lists lengths
  exact ⟨String.toList_inj.mp fronts, String.toList_inj.mp backs⟩

/-- Two texts with the same front cut at the same place. -/
theorem append_inj_left {front front' back back' : String} (same : front ++ back = front' ++ back')
    (length : front.length = front'.length) : front = front' ∧ back = back' := by
  have lists : front.toList ++ back.toList = front'.toList ++ back'.toList := by
    rw [← String.toList_append, ← String.toList_append, same]
  have lengths : front.toList.length = front'.toList.length := by
    rw [String.length_toList, String.length_toList, length]
  obtain ⟨fronts, backs⟩ := List.append_inj lists lengths
  exact ⟨String.toList_inj.mp fronts, String.toList_inj.mp backs⟩

end GiantCore.Foundation.Decimal
