import Mathlib.Order.Basic

/-! # Loops that may not end

The body of a loop goes on with a state or leaves with a result. What the loop returns is a
relation, since a body can go on forever.
-/

namespace GiantCore.Foundation.Loop

variable {σ ρ : Type}

/-- The loop leaves with a result after finitely many rounds. -/
inductive Returns (body : σ → σ ⊕ ρ) : σ → ρ → Prop where
  | leave {state : σ} {result : ρ} : body state = .inr result → Returns body state result
  | round {state next : σ} {result : ρ} : body state = .inl next → Returns body next result →
      Returns body state result

/-- The loop ends. -/
def Terminates (body : σ → σ ⊕ ρ) (state : σ) : Prop := ∃ result, Returns body state result

variable {body : σ → σ ⊕ ρ} {state next : σ}

/-- A round changes nothing about what is returned. -/
theorem returns_iff_of_round (round : body state = .inl next) {result : ρ} :
    Returns body state result ↔ Returns body next result := by
  constructor
  · rintro (leaves | ⟨other, returns⟩)
    · rw [round] at leaves
      cases leaves
    · rw [round] at other
      cases other
      exact returns
  · exact .round round

theorem terminates_iff_of_round (round : body state = .inl next) :
    Terminates body state ↔ Terminates body next :=
  exists_congr fun _ => returns_iff_of_round round

/-- **A state that comes again at once** comes forever. -/
theorem not_terminates_of_repeats (repeats : body state = .inl state) :
    ¬ Terminates body state := by
  rintro ⟨result, returns⟩
  induction returns with
  | leave leaves =>
      rw [repeats] at leaves
      cases leaves
  | round round _ ih =>
      rw [repeats] at round
      cases round
      exact ih repeats

end GiantCore.Foundation.Loop
