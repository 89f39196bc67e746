import Mathlib.Data.List.Perm.Basic
import Mathlib.Tactic.Common

/-! # A queue of items that wait for one another

A loop takes items from the front of a queue. An item that is not ready goes to the end,
and the loop gives up once it has been round the queue without processing anything. It
does not give up if among the items that are left one is always ready, wherever it stands;
where items wait for others along a relation that is well-founded on them, the first of
them waits for none.
-/

namespace GiantCore.Foundation.RetryQueue

variable {σ α : Type*} (ready : σ → α → Bool) (process : σ → α → Option σ)

/-- The loop, with the number of items that were put back since the last one was
processed. -/
def drain (steps : Nat) (state : σ) : List α → Option σ
  | [] => some state
  | item :: rest =>
      if ready state item then
        match process state item with
        | some next => drain 0 next rest
        | none => none
      else if steps + 1 < rest.length + 1 then drain (steps + 1) state (rest ++ [item])
      else none
termination_by queue => (queue.length, queue.length - steps)
decreasing_by
  · simp [Prod.lex_def]
  · simp [Prod.lex_def]
    omega

variable {ready process}

/-- An item that is ready has its turn before the loop gives up. -/
theorem drain_of_turn {inv : σ → List α → Prop}
    (perm : ∀ state queue other, queue.Perm other → inv state queue → inv state other)
    (someReady : ∀ state queue, queue ≠ [] → inv state queue →
      ∃ item ∈ queue, ready state item = true)
    (keeps : ∀ state item rest, inv state (item :: rest) → ready state item = true →
      ∃ next, process state item = some next ∧ inv next rest)
    {steps : Nat} {state : σ} {queue : List α} (holds : inv state queue)
    (turn : queue ≠ [] → ∃ i item, queue[i]? = some item ∧ ready state item = true ∧
      i + steps < queue.length) :
    ∃ last, drain ready process steps state queue = some last := by
  induction steps, state, queue using drain.induct ready process with
  | case1 steps state => exact ⟨state, drain.eq_1 ..⟩
  | case2 steps state item rest isReady next processed ih =>
      obtain ⟨found, same, kept⟩ := keeps state item rest holds isReady
      rw [processed] at same
      cases same
      rw [drain, if_pos isReady, processed]
      apply ih kept
      intro nonempty
      obtain ⟨other, member, otherReady⟩ := someReady next rest nonempty kept
      obtain ⟨i, inside, rfl⟩ := List.mem_iff_getElem.mp member
      exact ⟨i, _, List.getElem?_eq_getElem inside, otherReady, inside⟩
  | case3 steps state item rest isReady fails =>
      obtain ⟨next, processed, -⟩ := keeps state item rest holds isReady
      rw [fails] at processed
      cases processed
  | case4 steps state item rest waits inTime ih =>
      rw [drain, if_neg waits, if_pos inTime]
      have rotated : (item :: rest).Perm (rest ++ [item]) := by
        rw [← List.singleton_append]
        exact List.perm_append_comm
      apply ih (perm _ _ _ rotated holds)
      intro _
      obtain ⟨i, other, here, otherReady, early⟩ := turn (List.cons_ne_nil item rest)
      cases i with
      | zero =>
          cases here
          exact absurd otherReady waits
      | succ j =>
          rw [List.getElem?_cons_succ] at here
          have inside := (List.getElem?_eq_some_iff.mp here).1
          refine ⟨j, other, ?_, otherReady, ?_⟩
          · rw [List.getElem?_append_left inside, here]
          · rw [List.length_append, List.length_singleton]
            rw [List.length_cons] at early
            omega
  | case5 steps state item rest waits late =>
      obtain ⟨i, other, here, otherReady, early⟩ := turn (List.cons_ne_nil item rest)
      cases i with
      | zero =>
          cases here
          exact absurd otherReady waits
      | succ j =>
          rw [List.length_cons] at early
          omega

/-- **The loop does not give up** if some item is ready at all times. -/
theorem drain_eq_some {inv : σ → List α → Prop}
    (perm : ∀ state queue other, queue.Perm other → inv state queue → inv state other)
    (someReady : ∀ state queue, queue ≠ [] → inv state queue →
      ∃ item ∈ queue, ready state item = true)
    (keeps : ∀ state item rest, inv state (item :: rest) → ready state item = true →
      ∃ next, process state item = some next ∧ inv next rest)
    {state : σ} {queue : List α} (holds : inv state queue) :
    ∃ last, drain ready process 0 state queue = some last := by
  apply drain_of_turn perm someReady keeps holds
  intro nonempty
  obtain ⟨item, member, isReady⟩ := someReady state queue nonempty holds
  obtain ⟨i, inside, rfl⟩ := List.mem_iff_getElem.mp member
  exact ⟨i, _, List.getElem?_eq_getElem inside, isReady, inside⟩

/-- Of the items of a list one waits for none of the others. -/
theorem exists_first {waitsFor : α → α → Prop} {items : List α} (nonempty : items ≠ [])
    (grounded : ∀ item ∈ items, Acc (fun first second => waitsFor second first) item) :
    ∃ item ∈ items, ∀ other ∈ items, ¬ waitsFor item other := by
  obtain ⟨start, member⟩ := List.exists_mem_of_ne_nil items nonempty
  have reach := grounded start member
  induction reach with
  | intro item _ ih =>
      by_cases waits : ∃ other ∈ items, waitsFor item other
      · obtain ⟨other, inside, waits⟩ := waits
        exact ih other waits inside
      · refine ⟨item, member, ?_⟩
        intro other inside edge
        exact waits ⟨other, inside, edge⟩

end GiantCore.Foundation.RetryQueue
