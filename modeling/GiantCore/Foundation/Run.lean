import Mathlib.Tactic.Common

/-! # Runs of a state machine

The states that a list of actions passes through, and the two rules by which
facts about one step become facts about a whole run: an invariant is kept, and a
property that each step keeps exactly under a condition holds throughout a run
exactly when all its steps meet the condition.
-/

namespace GiantCore.Foundation.Run

variable {σ α : Type*} (step : σ → α → σ)

/-- The states of a run, the first one included. -/
def states : σ → List α → List σ
  | start, [] => [start]
  | start, action :: rest => start :: states (step start action) rest

/-- Every step of the run meets a condition on the state before it. -/
def AllSteps (ok : σ → α → Prop) : σ → List α → Prop
  | _, [] => True
  | start, action :: rest => ok start action ∧ AllSteps ok (step start action) rest

instance AllSteps.decidable {ok : σ → α → Prop} [∀ state action, Decidable (ok state action)] :
    ∀ start actions, Decidable (AllSteps step ok start actions)
  | _, [] => inferInstanceAs (Decidable True)
  | start, action :: rest =>
      @instDecidableAnd _ _ inferInstance (AllSteps.decidable (step start action) rest)

theorem start_mem_states (start : σ) (actions : List α) : start ∈ states step start actions := by
  cases actions with
  | nil => exact List.mem_singleton_self start
  | cons action rest => exact List.mem_cons_self

variable {step}

theorem allSteps_of_forall {ok : σ → α → Prop} {start : σ} {actions : List α}
    (all : ∀ state, ∀ action ∈ actions, ok state action) : AllSteps step ok start actions := by
  induction actions generalizing start with
  | nil => trivial
  | cons action rest ih =>
      refine ⟨all start action List.mem_cons_self, ih ?_⟩
      intro state other member
      exact all state other (List.mem_cons_of_mem _ member)

theorem AllSteps.imp {ok fits : σ → α → Prop} {start : σ} {actions : List α}
    (weaker : ∀ state action, ok state action → fits state action)
    (all : AllSteps step ok start actions) : AllSteps step fits start actions := by
  induction actions generalizing start with
  | nil => trivial
  | cons action rest ih => exact ⟨weaker start action all.1, ih all.2⟩

/-- A condition on the actions alone is one on the steps. -/
theorem AllSteps.and_forall {ok : σ → α → Prop} {fits : α → Prop} {start : σ} {actions : List α}
    (all : AllSteps step ok start actions) (allFit : ∀ action ∈ actions, fits action) :
    AllSteps step (fun state action => ok state action ∧ fits action) start actions := by
  induction actions generalizing start with
  | nil => trivial
  | cons action rest ih =>
      rw [List.forall_mem_cons] at allFit
      exact ⟨⟨all.1, allFit.1⟩, ih all.2 allFit.2⟩

/-- **The invariant rule.** -/
theorem invariant {inv : σ → Prop} (keeps : ∀ state action, inv state → inv (step state action))
    {start : σ} (initial : inv start) (actions : List α) :
    ∀ state ∈ states step start actions, inv state := by
  induction actions generalizing start with
  | nil =>
      intro state member
      rw [List.mem_singleton.mp member]
      exact initial
  | cons action rest ih =>
      intro state member
      rcases List.mem_cons.mp member with rfl | later
      · exact initial
      · exact ih (keeps start action initial) state later

/-- **The invariant rule for runs whose steps meet a condition.** -/
theorem invariant_of_steps {inv : σ → Prop} {ok : σ → α → Prop}
    (keeps : ∀ state action, ok state action → inv state → inv (step state action)) {start : σ}
    (initial : inv start) {actions : List α} (all : AllSteps step ok start actions) :
    inv (actions.foldl step start) := by
  induction actions generalizing start with
  | nil => exact initial
  | cons action rest ih => exact ih (keeps start action all.1 initial) all.2

/-- Such an invariant holds on the way too. -/
theorem invariant_states_of_steps {inv : σ → Prop} {ok : σ → α → Prop}
    (keeps : ∀ state action, ok state action → inv state → inv (step state action)) {start : σ}
    (initial : inv start) {actions : List α} (all : AllSteps step ok start actions) :
    ∀ state ∈ states step start actions, inv state := by
  induction actions generalizing start with
  | nil =>
      intro state member
      rw [List.mem_singleton.mp member]
      exact initial
  | cons action rest ih =>
      intro state member
      rcases List.mem_cons.mp member with rfl | later
      · exact initial
      · exact ih (keeps start action all.1 initial) all.2 state later

/-- **The origin rule.** If a step brings something about only in a state with a
cause, then what holds after a run held before it or has a cause on the way. -/
theorem origin (holds cause : σ → Prop) {ok : σ → α → Prop}
    (steps : ∀ state action, ok state action → holds (step state action) →
      holds state ∨ cause (step state action)) {start : σ} {actions : List α}
    (all : AllSteps step ok start actions) (after : holds (actions.foldl step start)) :
    holds start ∨ ∃ state ∈ states step start actions, cause state := by
  induction actions generalizing start with
  | nil => exact Or.inl after
  | cons action rest ih =>
      rcases ih all.2 after with earlier | ⟨state, member, found⟩
      · rcases steps start action all.1 earlier with before | found
        · exact Or.inl before
        · exact Or.inr ⟨_, List.mem_cons_of_mem _ (start_mem_states step _ rest), found⟩
      · exact Or.inr ⟨state, List.mem_cons_of_mem _ member, found⟩

/-- **The exact rule.** A property that a step keeps if and only if it meets a
condition holds in every state of a run if and only if every step meets it. The
actions of the run may be limited to those that fit. -/
theorem forall_states_iff (inv holds : σ → Prop) {fits : α → Prop} {ok : σ → α → Prop}
    (keeps : ∀ state action, inv state → inv (step state action))
    (exact : ∀ state action, fits action → inv state → holds state →
      (holds (step state action) ↔ ok state action))
    {start : σ} (initial : inv start) (first : holds start) {actions : List α}
    (allFit : ∀ action ∈ actions, fits action) :
    (∀ state ∈ states step start actions, holds state) ↔ AllSteps step ok start actions := by
  induction actions generalizing start with
  | nil =>
      simp only [states, List.mem_singleton, forall_eq, AllSteps, iff_true]
      exact first
  | cons action rest ih =>
      rw [List.forall_mem_cons] at allFit
      simp only [states, List.forall_mem_cons, AllSteps]
      rw [← exact start action allFit.1 initial first]
      constructor
      · intro ⟨_, later⟩
        have next := later _ (start_mem_states step _ rest)
        exact ⟨next, (ih (keeps _ _ initial) next allFit.2).mp later⟩
      · intro ⟨next, later⟩
        exact ⟨first, (ih (keeps _ _ initial) next allFit.2).mpr later⟩

/-- The last state of a run. -/
theorem foldl_mem_states (start : σ) (actions : List α) :
    actions.foldl step start ∈ states step start actions := by
  induction actions generalizing start with
  | nil => exact List.mem_singleton_self start
  | cons action rest ih => exact List.mem_cons_of_mem _ (ih (step start action))

end GiantCore.Foundation.Run
