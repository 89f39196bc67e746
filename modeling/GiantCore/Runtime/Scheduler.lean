import GiantCore.Foundation.Run
import Mathlib.Data.List.Perm.Basic
import Mathlib.Data.List.Sort
import Mathlib.Logic.Function.Basic

/-! # The scheduler

Threads in `CScheduler::serviceQueue` take tasks out of a queue that is ordered by time, and anybody
may schedule tasks meanwhile. A step is what a thread does from one wait, or one task, to the next,
and steps come in any order. Every task that was scheduled is started once or still in the queue,
and if the scheduler is told to drain, all are started before a thread leaves. A thread that waited
for the first task takes whatever is first when its time has come; so that no task is started too
early needs that one thread serves the queue, as in `AppInit2` (`scheduler_sound`).
-/

namespace GiantCore

/-- A task, and when it is to be run. -/
abbrev ScheduledTask := Int × Nat

/-- Where a thread stands without the lock. -/
inductive ServicePhase where
  /-- Before `serviceQueue`. -/
  | outside
  /-- In `newTaskScheduled.wait`. -/
  | waits
  /-- In `newTaskScheduled.wait_until`. -/
  | waitsUntil (deadline : Int)
  | runs (task : ScheduledTask)
  /-- After `serviceQueue`. -/
  | left
  deriving DecidableEq, Repr

/-- The scheduler, the clock, and the threads. The last two fields record what was scheduled, and
what was started when. -/
structure CScheduler where
  taskQueue : List ScheduledTask := []
  stopRequested : Bool := false
  stopWhenEmpty : Bool := false
  now : Int
  phase : Nat → ServicePhase := fun _ => .outside
  scheduled : List ScheduledTask := []
  started : List (Int × ScheduledTask) := []

/-- A step of a thread, of whoever uses the scheduler, or of the clock. -/
inductive SchedulerStep where
  /-- A thread calls `serviceQueue`. -/
  | enter (thread : Nat)
  /-- A wait returns without a timeout, notified or not. -/
  | wake (thread : Nat)
  /-- `wait_until` returns with a timeout. -/
  | timeout (thread : Nat)
  /-- The function of a task returns. -/
  | finish (thread : Nat)
  | schedule (t : Int) (f : Nat)
  | stop (drain : Bool)
  | tick (now : Int)
  deriving DecidableEq, Repr

namespace CScheduler

/-- A multimap takes a key behind those that are equal. -/
def insertTask (task : ScheduledTask) : List ScheduledTask → List ScheduledTask
  | [] => [task]
  | first :: rest =>
      if task.1 < first.1 then task :: first :: rest else first :: insertTask task rest

/-- `shouldStop`. -/
def shouldStop (scheduler : CScheduler) : Bool :=
  scheduler.stopRequested || (scheduler.stopWhenEmpty && scheduler.taskQueue.isEmpty)

/-- The phase of a thread is another. -/
def setPhase (scheduler : CScheduler) (thread : Nat) (phase : ServicePhase) : CScheduler :=
  { scheduler with phase := Function.update scheduler.phase thread phase }

/-- With the lock, from the head of the loop, or from a wait without a timeout, to the next wait. -/
def proceed (scheduler : CScheduler) (thread : Nat) : CScheduler :=
  if scheduler.shouldStop then scheduler.setPhase thread .left
  else match scheduler.taskQueue with
    | [] => scheduler.setPhase thread .waits
    | first :: _ => scheduler.setPhase thread (.waitsUntil first.1)

/-- After a timeout: the first task is started, if there is one. -/
def startFirst (scheduler : CScheduler) (thread : Nat) : CScheduler :=
  if scheduler.shouldStop then scheduler.proceed thread
  else match scheduler.taskQueue with
    | [] => scheduler.proceed thread
    | first :: rest =>
        { scheduler.setPhase thread (.runs first) with
          taskQueue := rest
          started := (scheduler.now, first) :: scheduler.started }

/-- One step. A thread that is not where the step begins stays as it is. -/
def step (scheduler : CScheduler) : SchedulerStep → CScheduler
  | .enter thread =>
      if scheduler.phase thread = .outside then scheduler.proceed thread else scheduler
  | .wake thread =>
      match scheduler.phase thread with
      | .waits => scheduler.proceed thread
      | .waitsUntil _ => scheduler.proceed thread
      | _ => scheduler
  | .timeout thread =>
      match scheduler.phase thread with
      | .waitsUntil deadline =>
          if deadline ≤ scheduler.now then scheduler.startFirst thread else scheduler
      | _ => scheduler
  | .finish thread =>
      match scheduler.phase thread with
      | .runs _ => scheduler.proceed thread
      | _ => scheduler
  | .schedule t f =>
      { scheduler with
        taskQueue := insertTask (t, f) scheduler.taskQueue
        scheduled := (t, f) :: scheduler.scheduled }
  | .stop drain =>
      if drain then { scheduler with stopWhenEmpty := true }
      else { scheduler with stopRequested := true }
  | .tick now => { scheduler with now := max scheduler.now now }

/-- A scheduler that nobody has used. -/
def fresh (now : Int) : CScheduler := { now }

/-- The thread of a step. -/
def threadOf : SchedulerStep → Option Nat
  | .enter thread | .wake thread | .timeout thread | .finish thread => some thread
  | _ => none

/-! ## What is scheduled -/

/-- **The queue is in order, and no task is lost or started twice.** -/
structure Conserved (scheduler : CScheduler) : Prop where
  sorted : scheduler.taskQueue.Pairwise fun task task' => task.1 ≤ task'.1
  kept : (scheduler.started.map Prod.snd ++ scheduler.taskQueue).Perm scheduler.scheduled

theorem perm_insertTask (task : ScheduledTask) (queue : List ScheduledTask) :
    (insertTask task queue).Perm (task :: queue) := by
  induction queue with
  | nil => exact List.Perm.refl _
  | cons first rest ih =>
      rw [insertTask]
      split
      · exact List.Perm.refl _
      · exact (ih.cons first).trans (List.Perm.swap task first rest)

theorem sorted_insertTask (task : ScheduledTask) {queue : List ScheduledTask}
    (sorted : queue.Pairwise fun task task' => task.1 ≤ task'.1) :
    (insertTask task queue).Pairwise fun task task' => task.1 ≤ task'.1 := by
  induction queue with
  | nil => exact List.pairwise_singleton _ _
  | cons first rest ih =>
      obtain ⟨above, sorted'⟩ := List.pairwise_cons.mp sorted
      rw [insertTask]
      split
      · rename_i earlier
        refine List.pairwise_cons.mpr ⟨fun other mem => ?_, sorted⟩
        rcases List.mem_cons.mp mem with rfl | later
        · exact Int.le_of_lt earlier
        · exact Int.le_trans (Int.le_of_lt earlier) (above other later)
      · rename_i later
        refine List.pairwise_cons.mpr ⟨fun other mem => ?_, ih sorted'⟩
        rcases List.mem_cons.mp ((perm_insertTask task rest).mem_iff.mp mem) with rfl | old
        · exact Int.not_lt.mp later
        · exact above other old

/-- What `proceed` changes: the phase of the thread. -/
theorem proceed_eq (scheduler : CScheduler) (thread : Nat) :
    ∃ phase, scheduler.proceed thread = scheduler.setPhase thread phase ∧
      (phase = .left → scheduler.shouldStop = true) ∧
      ∀ deadline, phase = .waitsUntil deadline →
        ∃ first rest, scheduler.taskQueue = first :: rest ∧ deadline = first.1 := by
  rw [proceed]
  split
  · rename_i stops
    exact ⟨.left, rfl, fun _ => stops, nofun⟩
  · split
    · exact ⟨.waits, rfl, nofun, nofun⟩
    · rename_i first rest same
      refine ⟨.waitsUntil first.1, rfl, nofun, ?_⟩
      rintro _ ⟨⟩
      exact ⟨first, rest, same, rfl⟩

/-- What a thread can do in a step: its phase changes, or it starts the first task. -/
theorem step_cases (scheduler : CScheduler) {action : SchedulerStep} {thread : Nat}
    (acts : threadOf action = some thread) :
    scheduler.step action = scheduler ∨ scheduler.step action = scheduler.proceed thread ∨
      ∃ deadline first rest, scheduler.phase thread = .waitsUntil deadline ∧
        deadline ≤ scheduler.now ∧ scheduler.taskQueue = first :: rest ∧
        scheduler.step action = { scheduler.setPhase thread (.runs first) with
          taskQueue := rest
          started := (scheduler.now, first) :: scheduler.started } := by
  cases action with
  | enter other =>
      cases acts
      rw [step]
      split
      · exact .inr (.inl rfl)
      · exact .inl rfl
  | wake other =>
      cases acts
      rw [step]
      split
      · exact .inr (.inl rfl)
      · exact .inr (.inl rfl)
      · exact .inl rfl
  | finish other =>
      cases acts
      rw [step]
      split
      · exact .inr (.inl rfl)
      · exact .inl rfl
  | timeout other =>
      cases acts
      rw [step]
      split
      · rename_i deadline phase
        split
        · rename_i due
          rw [startFirst]
          split
          · exact .inr (.inl rfl)
          · split
            · exact .inr (.inl rfl)
            · rename_i first rest same
              exact .inr (.inr ⟨deadline, first, rest, phase, due, same, rfl⟩)
        · exact .inl rfl
      · exact .inl rfl
  | schedule t f => cases acts
  | stop drain => cases acts
  | tick now => cases acts

theorem Conserved.step {scheduler : CScheduler} (conserved : Conserved scheduler)
    (action : SchedulerStep) : Conserved (scheduler.step action) := by
  cases acts : threadOf action with
  | none =>
      cases action with
      | schedule t f =>
          refine ⟨sorted_insertTask _ conserved.sorted, ?_⟩
          have perm := (perm_insertTask (t, f) scheduler.taskQueue).append_left
            (scheduler.started.map Prod.snd)
          exact (perm.trans List.perm_middle).trans (conserved.kept.cons (t, f))
      | stop drain => cases drain <;> exact ⟨conserved.sorted, conserved.kept⟩
      | tick now => exact ⟨conserved.sorted, conserved.kept⟩
      | _ => cases acts
  | some thread =>
      rcases scheduler.step_cases acts with
        same | same | ⟨-, first, rest, -, -, queue, same⟩ <;> rw [same]
      · exact conserved
      · obtain ⟨phase, same', -⟩ := scheduler.proceed_eq thread
        rw [same']
        exact ⟨conserved.sorted, conserved.kept⟩
      · have sorted := conserved.sorted
        have kept := conserved.kept
        rw [queue] at sorted kept
        exact ⟨(List.pairwise_cons.mp sorted).2, List.perm_middle.symm.trans kept⟩

/-! ## When tasks are started -/

/-- **One thread is on time.** What it waits for is not before the first task. -/
structure OnTime (scheduler : CScheduler) : Prop where
  waiting : ∀ deadline, scheduler.phase 0 = .waitsUntil deadline →
    ∃ first rest, scheduler.taskQueue = first :: rest ∧ first.1 ≤ deadline
  started : ∀ entry ∈ scheduler.started, entry.2.1 ≤ entry.1

theorem phase_setPhase (scheduler : CScheduler) (thread : Nat) (phase : ServicePhase) :
    (scheduler.setPhase thread phase).phase thread = phase := Function.update_self ..

theorem head_insertTask (task first : ScheduledTask) (rest : List ScheduledTask) :
    ∃ first' rest', insertTask task (first :: rest) = first' :: rest' ∧ first'.1 ≤ first.1 := by
  rw [insertTask]
  split
  · rename_i earlier
    exact ⟨_, _, rfl, Int.le_of_lt earlier⟩
  · exact ⟨_, _, rfl, Int.le_refl _⟩

theorem OnTime.step {scheduler : CScheduler} (onTime : OnTime scheduler) {action : SchedulerStep}
    (single : ∀ thread, threadOf action = some thread → thread = 0) :
    OnTime (scheduler.step action) := by
  cases acts : threadOf action with
  | none =>
      cases action with
      | schedule t f =>
          refine ⟨fun deadline waits => ?_, onTime.started⟩
          obtain ⟨first, rest, queue, before⟩ := onTime.waiting deadline waits
          obtain ⟨first', rest', queue', earlier⟩ := head_insertTask (t, f) first rest
          exact ⟨first', rest', (congrArg _ queue).trans queue', Int.le_trans earlier before⟩
      | stop drain => cases drain <;> exact ⟨onTime.waiting, onTime.started⟩
      | tick now => exact ⟨onTime.waiting, onTime.started⟩
      | _ => cases acts
  | some thread =>
      obtain rfl := single thread acts
      rcases scheduler.step_cases acts with
        same | same | ⟨deadline, first, rest, waits, due, queue, same⟩ <;> rw [same]
      · exact onTime
      · obtain ⟨phase, same', -, waits⟩ := scheduler.proceed_eq 0
        rw [same']
        refine ⟨fun deadline now => ?_, onTime.started⟩
        obtain ⟨first, rest, queue, exact_⟩ :=
          waits deadline ((phase_setPhase scheduler 0 phase).symm.trans now)
        exact ⟨first, rest, queue, Int.le_of_eq exact_.symm⟩
      · refine ⟨fun later now => ?_, fun entry mem => ?_⟩
        · cases (phase_setPhase scheduler 0 (.runs first)).symm.trans now
        · rcases List.mem_cons.mp mem with rfl | old
          · obtain ⟨first', rest', queue', before⟩ := onTime.waiting deadline waits
            cases queue.symm.trans queue'
            exact Int.le_trans before due
          · exact onTime.started entry old

/-! ## How threads leave -/

/-- A thread has left only if it was told to, and not before a queue to be drained is empty. -/
def Drained (scheduler : CScheduler) : Prop :=
  ∀ thread, scheduler.phase thread = .left → scheduler.stopRequested = false →
    scheduler.stopWhenEmpty = true ∧ scheduler.taskQueue = []

/-- The condition on a step: nothing is scheduled after a thread has left. -/
def InTime (scheduler : CScheduler) (action : SchedulerStep) : Prop :=
  ∀ t f, action = .schedule t f → ∀ thread, scheduler.phase thread ≠ .left

/-- The phase of a thread that has left is not of another's step. -/
theorem left_of_update {phases : Nat → ServicePhase} {thread other : Nat} {phase : ServicePhase}
    (left_ : Function.update phases thread phase other = .left) :
    other = thread ∧ phase = .left ∨ phases other = .left := by
  by_cases same : other = thread
  · subst same
    exact .inl ⟨rfl, (Function.update_self ..).symm.trans left_⟩
  · exact .inr ((Function.update_of_ne same ..).symm.trans left_)

theorem Drained.step {scheduler : CScheduler} (drained : Drained scheduler)
    {action : SchedulerStep} (inTime : InTime scheduler action) :
    Drained (scheduler.step action) := by
  cases acts : threadOf action with
  | none =>
      cases action with
      | schedule t f => exact fun thread left_ => absurd left_ (inTime t f rfl thread)
      | stop drain =>
          cases drain with
          | true => exact fun thread left_ calm => ⟨rfl, (drained thread left_ calm).2⟩
          | false => exact fun thread left_ calm => nomatch calm
      | tick now => exact drained
      | _ => cases acts
  | some thread =>
      rcases scheduler.step_cases acts with
        same | same | ⟨-, first, rest, -, -, queue, same⟩ <;> rw [same]
      · exact drained
      · obtain ⟨phase, same', stops, -⟩ := scheduler.proceed_eq thread
        rw [same']
        intro other left_ calm
        rcases left_of_update left_ with ⟨-, leaves⟩ | old
        · have stop := stops leaves
          have calm' : scheduler.stopRequested = false := calm
          rw [shouldStop, calm', Bool.false_or, Bool.and_eq_true, List.isEmpty_iff] at stop
          exact stop
        · exact drained other old calm
      · intro other left_ calm
        rcases left_of_update left_ with ⟨-, leaves⟩ | old
        · cases leaves
        · cases queue.symm.trans (drained other old calm).2

/-- **The scheduler.** In every run each task that was scheduled is started once or in the queue; no
task is started before its time if one thread serves the queue; and where a thread has left without
being told to stop at once, all tasks were started, if none was scheduled afterwards. -/
theorem scheduler_sound (now : Int) (actions : List SchedulerStep) :
    let states := Foundation.Run.states step (fresh now) actions
    (∀ scheduler ∈ states,
      (scheduler.started.map Prod.snd ++ scheduler.taskQueue).Perm scheduler.scheduled) ∧
    ((∀ action ∈ actions, ∀ thread, threadOf action = some thread → thread = 0) →
      ∀ scheduler ∈ states, ∀ entry ∈ scheduler.started, entry.2.1 ≤ entry.1) ∧
    (Foundation.Run.AllSteps step InTime (fresh now) actions →
      ∀ scheduler ∈ states, ∀ thread, scheduler.phase thread = .left →
        scheduler.stopRequested = false →
          (scheduler.started.map Prod.snd).Perm scheduler.scheduled) := by
  intro states
  have conserved : ∀ scheduler ∈ states, Conserved scheduler :=
    Foundation.Run.invariant (fun _ action conserved => conserved.step action)
      ⟨.nil, List.Perm.nil⟩ actions
  refine ⟨fun scheduler mem => (conserved scheduler mem).kept, fun single => ?_, fun inTime => ?_⟩
  · have steps : Foundation.Run.AllSteps step
        (fun _ action => ∀ thread, threadOf action = some thread → thread = 0) (fresh now)
        actions :=
      Foundation.Run.allSteps_of_forall fun _ action mem => single action mem
    have keeps : ∀ scheduler action, (∀ thread, threadOf action = some thread → thread = 0) →
        OnTime scheduler → OnTime (step scheduler action) :=
      fun _ _ single onTime => onTime.step single
    have first : OnTime (fresh now) :=
      ⟨fun _ waits => (by cases waits), fun _ mem => (by cases mem)⟩
    exact fun scheduler mem =>
      (Foundation.Run.invariant_states_of_steps keeps first steps scheduler mem).started
  · have keeps : ∀ scheduler action, InTime scheduler action → Drained scheduler →
        Drained (step scheduler action) := fun _ _ inTime drained => drained.step inTime
    have first : Drained (fresh now) := fun _ left_ => by cases left_
    have drained := Foundation.Run.invariant_states_of_steps keeps first inTime
    intro scheduler mem thread left_ calm
    have kept := (conserved scheduler mem).kept
    rwa [(drained scheduler mem thread left_ calm).2, List.append_nil] at kept

/-- One thread runs two tasks, is told to drain, and leaves. -/
def drainedRun : List SchedulerStep :=
  [.schedule 9 1, .schedule 5 0, .enter 0, .tick 10, .timeout 0, .finish 0, .timeout 0, .stop true,
    .finish 0]

theorem scheduler_sound_drainedRun :
    (drainedRun.foldl step (fresh 0)).started = [(10, (9, 1)), (10, (5, 0))] ∧
    (∀ entry ∈ (drainedRun.foldl step (fresh 0)).started, entry.2.1 ≤ entry.1) ∧
    ((drainedRun.foldl step (fresh 0)).started.map Prod.snd).Perm
      (drainedRun.foldl step (fresh 0)).scheduled := by
  have last : drainedRun.foldl step (fresh 0) ∈
      Foundation.Run.states step (fresh 0) drainedRun :=
    Foundation.Run.foldl_mem_states (fresh 0) drainedRun
  obtain ⟨-, onTime, drained⟩ := scheduler_sound 0 drainedRun
  have single : ∀ action ∈ drainedRun, ∀ thread, threadOf action = some thread → thread = 0 := by
    decide
  have inTime : Foundation.Run.AllSteps step InTime (fresh 0) drainedRun :=
    ⟨fun _ _ _ _ => nofun, fun _ _ _ _ => nofun, nofun, nofun, nofun, nofun, nofun, nofun, nofun,
      trivial⟩
  exact ⟨by decide, onTime single _ last, drained inTime _ last 0 (by decide) (by decide)⟩

-- Two threads wait for the first task, and one of them takes the second one too early.
example : ([SchedulerStep.schedule 5 0, .schedule 9 1, .enter 0, .enter 1, .tick 5, .timeout 0,
    .timeout 1].foldl step (fresh 0)).started = [(5, (9, 1)), (5, (5, 0))] := by decide

end CScheduler

end GiantCore
