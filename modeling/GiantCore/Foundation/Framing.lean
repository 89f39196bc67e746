import Mathlib.Data.List.Infix
import Mathlib.Tactic.Common

/-! # Frames in a stream

Messages that are written one after the other into a stream, each as a frame that says where it
ends. A stream is cut into frames in one way, so what can be read from a part of the stream is
settled by the part, however it arrived.
-/

namespace GiantCore.Foundation.Framing

variable {α μ : Type*} {frame : μ → List α} {valid : μ → Prop}

/-- A frame is known from any stream that it begins. -/
def SelfDelimiting (frame : μ → List α) (valid : μ → Prop) : Prop :=
  ∀ first second rest rest', valid first → valid second →
    frame first ++ rest = frame second ++ rest' → first = second

/-- No frame is complete at the front. -/
def Unfinished (frame : μ → List α) (valid : μ → Prop) (bytes : List α) : Prop :=
  ∀ message rest, valid message → bytes ≠ frame message ++ rest

/-- **A stream is cut in one way.** -/
theorem flatMap_append_inj (delimiting : SelfDelimiting frame valid) {first second : List μ}
    {rest rest' : List α} (validFirst : ∀ message ∈ first, valid message)
    (validSecond : ∀ message ∈ second, valid message) (open_ : Unfinished frame valid rest)
    (open' : Unfinished frame valid rest')
    (same : first.flatMap frame ++ rest = second.flatMap frame ++ rest') :
    first = second ∧ rest = rest' := by
  induction first generalizing second with
  | nil =>
      cases second with
      | nil => exact ⟨rfl, same⟩
      | cons message others =>
          rw [List.flatMap_cons, List.append_assoc] at same
          exact absurd same (open_ message _ (validSecond message (.head _)))
  | cons message others ih =>
      cases second with
      | nil =>
          rw [List.flatMap_cons, List.append_assoc] at same
          exact absurd same.symm (open' message _ (validFirst message (.head _)))
      | cons message' others' =>
          rw [List.flatMap_cons, List.flatMap_cons, List.append_assoc, List.append_assoc] at same
          have equal := delimiting message message' _ _ (validFirst message (.head _))
            (validSecond message' (.head _)) same
          subst equal
          obtain ⟨rfl, rests⟩ := ih (fun other inside => validFirst other (.tail _ inside))
            (fun other inside => validSecond other (.tail _ inside))
            (List.append_cancel_left same)
          exact ⟨rfl, rests⟩

/-- **What is read from a part of a stream was written first.** -/
theorem prefix_of_flatMap (delimiting : SelfDelimiting frame valid)
    (nonempty : ∀ message, valid message → frame message ≠ []) {sent read : List μ}
    {rest : List α} (validSent : ∀ message ∈ sent, valid message)
    (validRead : ∀ message ∈ read, valid message)
    (part : sent.flatMap frame = read.flatMap frame ++ rest) : read <+: sent := by
  induction read generalizing sent with
  | nil => exact List.nil_prefix
  | cons message others ih =>
      have validMessage := validRead message (.head _)
      cases sent with
      | nil =>
          rw [List.flatMap_cons, List.flatMap_nil, List.append_assoc] at part
          exact absurd (List.append_eq_nil_iff.mp part.symm).1 (nonempty message validMessage)
      | cons message' others' =>
          rw [List.flatMap_cons, List.flatMap_cons, List.append_assoc] at part
          have equal := delimiting message' message _ _ (validSent message' (.head _))
            validMessage part
          subst equal
          rw [List.prefix_cons_inj]
          exact ih (fun other inside => validSent other (.tail _ inside))
            (fun other inside => validRead other (.tail _ inside)) (List.append_cancel_left part)

end GiantCore.Foundation.Framing
