import Mathlib.Tactic.Common

/-! # Sequences of checks

A check gives a value or an error. A sequence of checks goes through exactly when
every check of it does, and a loop whose rounds make one test more than those of
another loop goes through exactly when the other does and every test is passed.
-/

namespace GiantCore.Foundation.Checks

variable {ε α β σ : Type}

theorem bind_eq_ok {first : Except ε α} {next : α → Except ε β} {result : β} :
    first >>= next = .ok result ↔ ∃ middle, first = .ok middle ∧ next middle = .ok result := by
  cases first with
  | error failure => simp [bind, Except.bind]
  | ok middle => simp [bind, Except.bind]

theorem mapError_eq_ok {δ : Type} {check : Except ε α} {f : ε → δ} {result : α} :
    check.mapError f = .ok result ↔ check = .ok result := by
  cases check with
  | error failure => simp [Except.mapError]
  | ok value => simp [Except.mapError]

/-- A loop of checks without a state. -/
theorem forM_eq_ok_iff {check : α → Except ε Unit} {items : List α} :
    items.forM check = .ok () ↔ ∀ item ∈ items, check item = .ok () := by
  induction items with
  | nil => simp [pure, Except.pure]
  | cons item rest ih =>
      change check item >>= (fun _ => rest.forM check) = .ok () ↔ _
      rw [bind_eq_ok, List.forall_mem_cons, ← ih]
      constructor
      · intro ⟨_, first, others⟩
        exact ⟨first, others⟩
      · intro ⟨first, others⟩
        exact ⟨_, first, others⟩

/-- A loop whose rounds all leave the state it starts from. -/
theorem foldlM_eq_ok_of_skip {step : σ → α → Except ε σ} {items : List α} {start : σ}
    (skips : ∀ item ∈ items, step start item = .ok start) :
    items.foldlM step start = .ok start := by
  induction items with
  | nil => rfl
  | cons item rest ih =>
      obtain ⟨first, others⟩ := List.forall_mem_cons.mp skips
      rw [List.foldlM_cons, bind_eq_ok]
      exact ⟨start, first, ih others⟩

/-- A loop whose rounds only let the state grow, and each do something for their
item that later rounds do not take back. -/
theorem forall_of_foldlM_eq_ok {step : σ → α → Except ε σ} (grows : σ → σ → Prop)
    (done : α → σ → Prop) (refl : ∀ state, grows state state)
    (trans : ∀ {first second third}, grows first second → grows second third → grows first third)
    (stable : ∀ {item before after}, done item before → grows before after → done item after)
    {items : List α}
    (rounds : ∀ item ∈ items, ∀ before after, step before item = .ok after →
      grows before after ∧ done item after)
    {start last : σ} (ran : items.foldlM step start = .ok last) :
    grows start last ∧ ∀ item ∈ items, done item last := by
  induction items generalizing start with
  | nil =>
      cases ran
      exact ⟨refl _, by simp⟩
  | cons item rest ih =>
      rw [List.foldlM_cons, bind_eq_ok] at ran
      obtain ⟨middle, first, remaining⟩ := ran
      obtain ⟨grown, doneFirst⟩ := rounds item List.mem_cons_self start middle first
      obtain ⟨grownRest, doneRest⟩ :=
        ih (fun other member => rounds other (List.mem_cons_of_mem item member)) remaining
      refine ⟨trans grown grownRest, List.forall_mem_cons.mpr ⟨?_, doneRest⟩⟩
      exact stable doneFirst grownRest

end GiantCore.Foundation.Checks
