import Mathlib.Tactic.Common

/-! # Programs that may stop

A program reads and changes a state, and it ends with a value or stops. Two ways to reason
about programs are set up here. `wp` is the weakest condition on a state under which a
program only stops in allowed ways and else ends in a postcondition; its equations
evaluate the condition along a program. `Restricts` compares two programs: the second
does no more than the first, so it stops wherever it does not do the same.
-/

namespace GiantCore.Foundation

/-- A program over states of one type that may stop. -/
abbrev Program (σ ε α : Type) := StateT σ (Except ε) α

namespace Program

variable {σ ε α β : Type}

/-- Stop. -/
def stop (reason : ε) : Program σ ε α := fun _ => .error reason

/-- Read the state. -/
def ask (read : σ → α) : Program σ ε α := fun state => .ok (read state, state)

/-- Change the state. -/
def update (change : σ → σ) : Program σ ε Unit := fun state => .ok ((), change state)

/-- Go on if a condition holds, which may depend on the state. -/
def require (kept : σ → Bool) (reason : ε) : Program σ ε Unit := fun state =>
  if kept state then .ok ((), state) else .error reason

/-- Take what a part of the state holds, or stop. -/
def expect (read : σ → Option α) (reason : ε) : Program σ ε α := fun state =>
  match read state with
  | some value => .ok (value, state)
  | none => .error reason

/-- How two programs run, one after the other. -/
theorem run_bind (program : Program σ ε α) (next : α → Program σ ε β) (state : σ) :
    (program >>= next) state =
      match program state with
      | .ok (value, after) => next value after
      | .error reason => .error reason := by
  change Except.bind (program state) _ = _
  cases program state with
  | error reason => rfl
  | ok result => rfl

/-! ## Weakest conditions -/

/-- The program stops from the state in an allowed way, or ends in the postcondition. -/
def wp (program : Program σ ε α) (allowed : ε → Prop) (post : α → σ → Prop) (state : σ) : Prop :=
  match program state with
  | .ok (value, after) => post value after
  | .error reason => allowed reason

section

variable {allowed : ε → Prop} {post : α → σ → Prop} {state : σ}

/-- The rule of a value. -/
@[simp] theorem wp_pure (value : α) :
    wp (pure value : Program σ ε α) allowed post state ↔ post value state :=
  Iff.rfl

/-- The rule of two programs, one after the other. -/
@[simp] theorem wp_bind (program : Program σ ε β) (next : β → Program σ ε α) :
    wp (program >>= next) allowed post state ↔
      wp program allowed (fun value after => wp (next value) allowed post after) state := by
  unfold wp
  rw [run_bind]
  cases program state with
  | error reason => rfl
  | ok result => rfl

/-- A program may stop for an allowed reason only. -/
@[simp] theorem wp_stop (reason : ε) :
    wp (stop reason : Program σ ε α) allowed post state ↔ allowed reason :=
  Iff.rfl

/-- The rule of a read. -/
@[simp] theorem wp_ask (read : σ → α) :
    wp (ask read : Program σ ε α) allowed post state ↔ post (read state) state :=
  Iff.rfl

/-- The rule of a change. -/
@[simp] theorem wp_update (change : σ → σ) {post : Unit → σ → Prop} :
    wp (update change : Program σ ε Unit) allowed post state ↔ post () (change state) :=
  Iff.rfl

/-- The rule of a test. -/
@[simp] theorem wp_require (kept : σ → Bool) (reason : ε) {post : Unit → σ → Prop} :
    wp (require kept reason) allowed post state ↔
      if kept state then post () state else allowed reason := by
  unfold wp require
  cases kept state with
  | true => rfl
  | false => rfl

/-- The rule of a read that may fail. -/
@[simp] theorem wp_expect (read : σ → Option α) (reason : ε) :
    wp (expect read reason) allowed post state ↔
      (∀ value, read state = some value → post value state) ∧
        (read state = none → allowed reason) := by
  unfold wp expect
  cases read state with
  | none => simp
  | some value => simp

/-- A weaker postcondition. -/
theorem wp_mono {program : Program σ ε α} {weaker : α → σ → Prop}
    (holds : wp program allowed post state)
    (implies : ∀ value after, post value after → weaker value after) :
    wp program allowed weaker state := by
  unfold wp at *
  cases result : program state with
  | error reason => simpa [result] using holds
  | ok ended =>
      rw [result] at holds
      exact implies _ _ holds

/-- A loop keeps what its body keeps. -/
theorem wp_forM {items : List β} {body : β → Program σ ε PUnit} {kept : σ → Prop}
    (step : ∀ item ∈ items, ∀ state, kept state →
      wp (body item) allowed (fun _ after => kept after) state)
    (start : kept state) :
    wp (items.forM body) allowed (fun _ after => kept after) state := by
  induction items generalizing state with
  | nil => exact start
  | cons item rest ih =>
      change wp (body item >>= fun _ => rest.forM body) allowed _ state
      rw [wp_bind]
      apply wp_mono (step item List.mem_cons_self state start)
      intro _ after holds
      exact ih (fun other member => step other (List.mem_cons_of_mem item member)) holds

end

/-! ## Restrictions -/

/-- Where the second program ends, the first ends alike. -/
def Restricts (weak strict : Program σ ε α) : Prop :=
  ∀ state value after, strict state = .ok (value, after) → weak state = .ok (value, after)

namespace Restricts

/-- A program restricts itself. -/
theorem refl (program : Program σ ε α) : Restricts program program := fun _ _ _ => id

/-- Two restrictions, one after the other. -/
theorem bind {weak strict : Program σ ε α} {next nextStrict : α → Program σ ε β}
    (first : Restricts weak strict) (rest : ∀ value, Restricts (next value) (nextStrict value)) :
    Restricts (weak >>= next) (strict >>= nextStrict) := by
  intro state value after ended
  rw [run_bind] at ended ⊢
  cases result : strict state with
  | error reason =>
      rw [result] at ended
      cases ended
  | ok middle =>
      rw [result] at ended
      rw [first _ _ _ result]
      exact rest _ _ _ _ ended

/-- The first part is restricted. -/
theorem bind_left {weak strict : Program σ ε α} (next : α → Program σ ε β)
    (first : Restricts weak strict) : Restricts (weak >>= next) (strict >>= next) :=
  first.bind fun value => refl (next value)

/-- The second part is restricted. -/
theorem bind_right (program : Program σ ε α) {next nextStrict : α → Program σ ε β}
    (rest : ∀ value, Restricts (next value) (nextStrict value)) :
    Restricts (program >>= next) (program >>= nextStrict) :=
  (refl program).bind rest

/-- A test that keeps more. -/
theorem require {kept keptStrict : σ → Bool} (reason : ε)
    (keeps : ∀ state, keptStrict state = true → kept state = true) :
    Restricts (Program.require kept reason) (Program.require keptStrict reason) := by
  intro state value after ended
  unfold Program.require at ended ⊢
  split at ended
  · rename_i strict
    rw [if_pos (keeps state strict)]
    exact ended
  · cases ended

/-- A read that finds more. -/
theorem expect {read readStrict : σ → Option α} (reason : ε)
    (finds : ∀ state value, readStrict state = some value → read state = some value) :
    Restricts (Program.expect read reason) (Program.expect readStrict reason) := by
  intro state value after ended
  unfold Program.expect at ended ⊢
  split at ended
  · rename_i found strict
    rw [finds state found strict]
    exact ended
  · cases ended

/-- A choice is restricted where both cases are. -/
theorem ite {condition : Prop} [Decidable condition]
    {first firstStrict second secondStrict : Program σ ε α}
    (whenTrue : condition → Restricts first firstStrict)
    (whenFalse : ¬ condition → Restricts second secondStrict) :
    Restricts (if condition then first else second)
      (if condition then firstStrict else secondStrict) := by
  split
  · rename_i holds
    exact whenTrue holds
  · rename_i fails
    exact whenFalse fails

/-- A loop is restricted where its body is. -/
theorem forM (items : List β) {body bodyStrict : β → Program σ ε PUnit}
    (step : ∀ item, Restricts (body item) (bodyStrict item)) :
    Restricts (items.forM body) (items.forM bodyStrict) := by
  induction items with
  | nil => exact refl _
  | cons item rest ih =>
      change Restricts (body item >>= fun _ => rest.forM body)
        (bodyStrict item >>= fun _ => rest.forM bodyStrict)
      exact (step item).bind fun _ => ih

end Restricts

/-! ## Programs that only read -/

/-- The program leaves the state as it is. -/
def ReadOnly (program : Program σ ε α) : Prop :=
  ∀ state value after, program state = .ok (value, after) → after = state

namespace ReadOnly

/-- Two programs that read only, one after the other. -/
theorem bind {program : Program σ ε α} {next : α → Program σ ε β} (first : ReadOnly program)
    (rest : ∀ value, ReadOnly (next value)) : ReadOnly (program >>= next) := by
  intro state value after ended
  rw [run_bind] at ended
  cases result : program state with
  | error reason =>
      rw [result] at ended
      cases ended
  | ok middle =>
      rw [result] at ended
      exact (rest _ _ _ _ ended).trans (first _ _ _ result)

/-- A test reads only. -/
theorem require (kept : σ → Bool) (reason : ε) : ReadOnly (Program.require kept reason) := by
  intro state value after ended
  unfold Program.require at ended
  split at ended
  · cases ended
    rfl
  · cases ended

/-- A read that may fail reads only. -/
theorem expect (read : σ → Option α) (reason : ε) : ReadOnly (Program.expect read reason) := by
  intro state value after ended
  unfold Program.expect at ended
  split at ended
  · cases ended
    rfl
  · cases ended

/-- Tests alone restrict the program that does nothing. -/
theorem restricts {program : Program σ ε Unit} (reads : ReadOnly program) :
    Restricts (pure ()) program := by
  intro state value after ended
  rw [reads state value after ended]
  rfl

end ReadOnly

end Program

end GiantCore.Foundation
