import GiantCore.Foundation.Run
import GiantCore.Foundation.Tally
import Mathlib.Algebra.Order.Group.Multiset
import Mathlib.Data.Fintype.Option

/-! # The queue of script checks

`CCheckQueue` of `checkqueue.h`: a master adds checks and then helps the workers until all are
done. A step is a critical section of one thread, or a check that it runs outside the lock, and
threads take steps in any order. `Wait` returns whether all checks pass, and has called none of
them twice (`wait_exact`); the queue is idle whenever a master begins to use it, and a master that
sleeps is woken by a worker (`idle_and_woken`).
-/

namespace GiantCore

variable {T ι : Type}

/-- Where a thread stands between two critical sections. -/
inductive CheckPhase (T : Type) where
  | outside
  /-- In `cond.wait`, perhaps notified. -/
  | waiting (notified : Bool)
  /-- Before the first check of `left`; `vChecks` is `done` and `left`. -/
  | working (done left : List T) (fOk : Bool)
  deriving DecidableEq, Repr

namespace CheckPhase

/-- The batch of a thread. -/
def vChecks : CheckPhase T → Multiset T
  | working done left _ => ↑(done ++ left)
  | _ => 0

/-- What a thread has seen of its batch. -/
def seen : CheckPhase T → Multiset T
  | working done _ _ => ↑done
  | _ => 0

def idle : CheckPhase T → Int
  | waiting _ => 1
  | _ => 0

def inLoop : CheckPhase T → Int
  | outside => 0
  | _ => 1

end CheckPhase

/-- A call of `Wait` that returned, with the checks that were added for it and those that were
called. -/
structure CheckVerdict (T : Type) where
  fRet : Bool
  added : List T
  called : List T
  deriving DecidableEq, Repr

/-- The queue, and the threads that use it: the master is `none`. The last four fields record
what has happened since the master returned last, and what it returned. -/
structure CCheckQueue (T ι : Type) where
  queue : List T := []
  nIdle : Int := 0
  nTotal : Int := 0
  fAllOk : Bool := true
  nTodo : Nat := 0
  fQuit : Bool := false
  nBatchSize : Nat
  phase : Option ι → CheckPhase T := fun _ => .outside
  added : List T := []
  finished : List T := []
  called : List T := []
  returned : List (CheckVerdict T) := []

/-- A step of one thread. -/
inductive CheckStep (T ι : Type) where
  /-- `Add`; `lucky` is the thread that `notify_one` wakes. -/
  | add (vChecks : List T) (lucky : Option ι)
  /-- A thread calls `Loop`. -/
  | enter (thread : Option ι)
  /-- `cond.wait` returns, with or without a notification. -/
  | wake (thread : Option ι)
  /-- The next check of a batch. -/
  | check (thread : Option ι)
  /-- A batch is done. -/
  | finish (thread : Option ι)

namespace CCheckQueue

variable [DecidableEq ι]

/-- The size of a batch. -/
def nNow (state : CCheckQueue T ι) : Nat :=
  max 1 (min state.nBatchSize
    (state.queue.length % 2 ^ 32 / ((state.nTotal + state.nIdle + 1) % 2 ^ 32).toNat))

/-- A notification of the threads that are chosen among those that wait. -/
def notify (chosen : Option ι → Bool) (phase : Option ι → CheckPhase T) :
    Option ι → CheckPhase T := fun thread =>
  match phase thread with
  | .waiting notified => .waiting (notified || chosen thread)
  | other => other

/-- `return` in `Loop`. -/
def leave (thread : Option ι) (state : CCheckQueue T ι) : CCheckQueue T ι :=
  match thread with
  | none =>
      { state with
        nTotal := state.nTotal - 1
        fAllOk := true
        phase := Function.update state.phase none .outside
        added := []
        finished := []
        called := []
        returned := state.returned ++ [⟨state.fAllOk, state.added, state.called⟩] }
  | some worker =>
      { state with
        nTotal := state.nTotal - 1
        phase := Function.update state.phase (some worker) .outside }

/-- `Loop` from `while (queue.empty())` to the end of the critical section. -/
def loopHead (thread : Option ι) (state : CCheckQueue T ι) : CCheckQueue T ι :=
  if state.queue.isEmpty then
    if (thread = none ∨ state.fQuit) ∧ state.nTodo = 0 then state.leave thread
    else
      { state with
        nIdle := state.nIdle + 1
        phase := Function.update state.phase thread (.waiting false) }
  else
    { state with
      queue := state.queue.take (state.queue.length - state.nNow)
      phase := Function.update state.phase thread
        (.working [] (state.queue.reverse.take state.nNow) state.fAllOk) }

variable (check : T → Bool)

/-- A step; one that the thread cannot take changes nothing. -/
def step (state : CCheckQueue T ι) : CheckStep T ι → CCheckQueue T ι
  | .add vChecks lucky =>
      match state.phase none with
      | .outside =>
          { state with
            queue := state.queue ++ vChecks
            nTodo := (state.nTodo + vChecks.length) % 2 ^ 32
            added := state.added ++ vChecks
            phase := notify (fun thread => decide (thread ≠ none) &&
              (decide (1 < vChecks.length) || decide (vChecks.length = 1) && thread == lucky))
              state.phase }
      | _ => state
  | .enter thread =>
      match state.phase thread with
      | .outside => loopHead thread { state with nTotal := state.nTotal + 1 }
      | _ => state
  | .wake thread =>
      match state.phase thread with
      | .waiting _ =>
          loopHead thread
            { state with
              nIdle := state.nIdle - 1
              phase := Function.update state.phase thread .outside }
      | _ => state
  | .check thread =>
      match state.phase thread with
      | .working done (next :: left) fOk =>
          { state with
            called := if fOk then state.called ++ [next] else state.called
            phase := Function.update state.phase thread
              (.working (done ++ [next]) left (fOk && check next)) }
      | _ => state
  | .finish thread =>
      match state.phase thread with
      | .working done [] fOk =>
          let nTodo := (state.nTodo + 2 ^ 32 - done.length) % 2 ^ 32
          let phase := Function.update state.phase thread .outside
          loopHead thread
            { state with
              fAllOk := state.fAllOk && fOk
              nTodo
              finished := state.finished ++ done
              phase := if nTodo = 0 ∧ thread ≠ none then notify (fun other => other == none) phase
                else phase }
      | _ => state

/-- `IsIdle`. -/
def isIdle (state : CCheckQueue T ι) : Bool :=
  decide (state.nTotal = state.nIdle) && state.nTodo == 0 && state.fAllOk

/-! ## The invariant -/

end CCheckQueue

/-- A result is true only if what was seen passes, and false only if something fails. -/
def Judged (check : T → Bool) (added : List T) (ok : Bool) (seen : List T) : Prop :=
  (ok = true → ∀ item ∈ seen, check item = true) ∧ (ok = false → ∃ item ∈ added, check item = false)

theorem Judged.mono {check : T → Bool} {added seen : List T} {ok : Bool}
    (judged : Judged check added ok seen) (more : List T) :
    Judged check (added ++ more) ok seen := by
  refine ⟨judged.1, fun bad => ?_⟩
  obtain ⟨item, member, fails⟩ := judged.2 bad
  exact ⟨item, List.mem_append_left _ member, fails⟩

theorem Judged.append {check : T → Bool} {added first second : List T} {ok ok' : Bool}
    (judged : Judged check added ok first) (other : Judged check added ok' second) :
    Judged check added (ok && ok') (first ++ second) := by
  constructor
  · intro both item member
    rw [Bool.and_eq_true] at both
    rcases List.mem_append.mp member with inFirst | inSecond
    · exact judged.1 both.1 item inFirst
    · exact other.1 both.2 item inSecond
  · intro either
    rw [Bool.and_eq_false_iff] at either
    exact either.elim judged.2 other.2

/-- One check passes or fails. -/
theorem judged_singleton (check : T → Bool) {added : List T} {item : T} (member : item ∈ added) :
    Judged check added (check item) [item] := by
  constructor
  · intro passes other same
    rwa [List.mem_singleton.mp same]
  · exact fun fails => ⟨item, member, fails⟩

/-- A batch is not empty, and its result is that of the checks seen. -/
def CheckPhase.Sound (check : T → Bool) (added : List T) : CheckPhase T → Prop
  | working done left fOk => done ++ left ≠ [] ∧ Judged check added fOk done
  | _ => True

/-- A master waits for checks that others have taken, and is notified when these are done. -/
def CheckPhase.MasterWaits (queue : List T) (nTodo : Nat) : CheckPhase T → Prop
  | waiting notified => queue = [] ∧ (notified = false → nTodo ≠ 0)
  | _ => True

/-- The result of a call is that of all checks, which were called once if they all passed. -/
structure CheckVerdict.Exact (check : T → Bool) (verdict : CheckVerdict T) : Prop where
  result : verdict.fRet = verdict.added.all check
  once : (verdict.called : Multiset T) ≤ verdict.added
  all : verdict.fRet = true → (verdict.called : Multiset T) = verdict.added

namespace CCheckQueue

open GiantCore.Foundation GiantCore.Foundation.Tally CheckPhase

variable [Fintype ι] (check : T → Bool)

/-- What the fields count, when `within` threads have the lock. -/
structure Counted (within : Int) (state : CCheckQueue T ι) : Prop where
  running : state.fQuit = false
  todo : state.nTodo + state.finished.length = state.added.length
  few : state.added.length < 2 ^ 32
  pieces : (state.added : Multiset T) =
    ↑(state.finished ++ state.queue) + total vChecks state.phase
  idle : state.nIdle = total CheckPhase.idle state.phase
  threads : state.nTotal = total inLoop state.phase + within
  sound : ∀ thread, (state.phase thread).Sound check state.added
  judged : Judged check state.added state.fAllOk state.finished
  calledLe : (state.called : Multiset T) ≤ ↑state.finished + total seen state.phase
  calledAll : (∀ item ∈ state.added, check item = true) →
    (state.called : Multiset T) = ↑state.finished + total seen state.phase
  verdicts : ∀ verdict ∈ state.returned, verdict.Exact check

/-- The invariant, when `within` threads have the lock. -/
structure Consistent (within : Int) (state : CCheckQueue T ι) : Prop
    extends Counted check within state where
  master : (state.phase none).MasterWaits state.queue state.nTodo

variable {check} {state : CCheckQueue T ι} {within : Int}

/-- The checks of a batch have been added. -/
theorem Consistent.mem_added (consistent : Consistent check within state) {thread : Option ι}
    {item : T} (member : item ∈ (state.phase thread).vChecks) : item ∈ state.added := by
  rw [← Multiset.mem_coe, consistent.pieces]
  refine Multiset.mem_add.mpr (.inr ?_)
  exact Multiset.mem_sum.mpr ⟨thread, Finset.mem_univ _, member⟩

/-- Nothing is left to do where no thread has a batch. -/
theorem Consistent.nothing_left (consistent : Consistent check within state)
    (empty : state.queue = []) (done : state.nTodo = 0) : total vChecks state.phase = 0 := by
  have size := congrArg Multiset.card consistent.pieces
  have todo := consistent.todo
  rw [empty, List.append_nil, Multiset.card_add, Multiset.coe_card, Multiset.coe_card] at size
  exact Multiset.card_eq_zero.mp (by omega)

theorem Consistent.not_working (consistent : Consistent check within state)
    (empty : state.queue = []) (done : state.nTodo = 0) (thread : Option ι) :
    (state.phase thread).vChecks = 0 ∧ (state.phase thread).seen = 0 := by
  have none := eq_zero_of_total (consistent.nothing_left empty done) thread
  refine ⟨none, ?_⟩
  have sound := consistent.sound thread
  cases phase : state.phase thread with
  | outside => rfl
  | waiting notified => rfl
  | working before left fOk =>
      rw [phase] at none sound
      exact absurd (Multiset.coe_eq_zero _ |>.mp none) sound.1

omit [Fintype ι] in
theorem nNow_pos (state : CCheckQueue T ι) : 0 < state.nNow := by
  unfold nNow
  omega

omit [Fintype ι] in
theorem nNow_le (more : state.queue ≠ []) : state.nNow ≤ state.queue.length := by
  have positive := List.length_pos_iff.mpr more
  have share : state.queue.length % 2 ^ 32 /
      ((state.nTotal + state.nIdle + 1) % 2 ^ 32).toNat ≤ state.queue.length :=
    (Nat.div_le_self _ _).trans (Nat.mod_le _ _)
  unfold nNow
  omega

/-- What `Wait` returns is exact. -/
theorem Consistent.exact (consistent : Consistent check within state) (empty : state.queue = [])
    (done : state.nTodo = 0) :
    CheckVerdict.Exact check ⟨state.fAllOk, state.added, state.called⟩ := by
  have all : (state.added : Multiset T) = state.finished := by
    rw [consistent.pieces, empty, List.append_nil, consistent.nothing_left empty done, add_zero]
  have tried : total seen state.phase = 0 :=
    Finset.sum_eq_zero fun thread _ => (consistent.not_working empty done thread).2
  have calledLe := consistent.calledLe
  have calledAll := consistent.calledAll
  rw [tried, add_zero, ← all] at calledLe calledAll
  have passes (ok : state.fAllOk = true) : ∀ item ∈ state.added, check item = true := by
    intro item member
    rw [← Multiset.mem_coe, all, Multiset.mem_coe] at member
    exact consistent.judged.1 ok item member
  refine ⟨?_, calledLe, fun ok => calledAll (passes ok)⟩
  cases ok : state.fAllOk with
  | true => exact (List.all_eq_true.mpr (passes ok)).symm
  | false =>
      obtain ⟨item, member, fails⟩ := consistent.judged.2 ok
      refine (List.all_eq_false.mpr ⟨item, member, ?_⟩).symm
      rw [fails]
      exact Bool.false_ne_true

variable [DecidableEq ι]

theorem Consistent.sound_update (consistent : Consistent check within state) {thread : Option ι}
    {phase : CheckPhase T} (sound : phase.Sound check state.added) (other : Option ι) :
    (Function.update state.phase thread phase other).Sound check state.added := by
  by_cases same : other = thread
  · subst same
    rwa [Function.update_self]
  · rw [Function.update_of_ne same]
    exact consistent.sound other

/-- A thread leaves the loop with the lock. -/
theorem Consistent.leave (consistent : Consistent check 1 state) {thread : Option ι}
    (outside : state.phase thread = .outside) (empty : state.queue = []) (done : state.nTodo = 0) :
    Consistent check 0 (state.leave thread) := by
  have same : Function.update state.phase thread .outside = state.phase := by
    rw [← outside, Function.update_eq_self]
  have threads : state.nTotal - 1 = total inLoop state.phase + 0 := by
    rw [consistent.threads]
    omega
  have tried : total seen state.phase = 0 :=
    Finset.sum_eq_zero fun other _ => (consistent.not_working empty done other).2
  cases thread with
  | some worker =>
      dsimp only [CCheckQueue.leave]
      rw [same]
      exact { consistent with threads }
  | none =>
      dsimp only [CCheckQueue.leave]
      rw [same]
      refine
        { consistent with
          threads
          todo := done
          few := Nat.two_pow_pos 32
          pieces := ?_
          sound := ?_
          judged := ⟨fun _ item member => absurd member List.not_mem_nil, nofun⟩
          calledLe := Multiset.zero_le _
          calledAll := ?_
          verdicts := ?_
          master := ?_ }
      · rw [empty, consistent.nothing_left empty done]
        rfl
      · intro other
        have nothing := (consistent.not_working empty done other).1
        have sound := consistent.sound other
        dsimp only
        cases phase : state.phase other with
        | working before left fOk =>
            rw [phase] at nothing sound
            exact absurd ((Multiset.coe_eq_zero _).mp nothing) sound.1
        | outside => trivial
        | waiting notified => trivial
      · intro _
        rw [tried]
        rfl
      · intro verdict member
        rcases List.mem_append.mp member with before | last
        · exact consistent.verdicts verdict before
        · rw [List.mem_singleton.mp last]
          exact consistent.exact empty done
      · rw [outside]
        trivial

/-- A thread begins to wait. -/
theorem Consistent.wait (consistent : Consistent check 1 state) {thread : Option ι}
    (outside : state.phase thread = .outside) (empty : state.queue = [])
    (some_ : thread = none → state.nTodo ≠ 0) :
    Consistent check 0
      { state with
        nIdle := state.nIdle + 1
        phase := Function.update state.phase thread (.waiting false) } := by
  have update {M : Type} [AddCommMonoid M] (weight : CheckPhase T → M)
      (zero : weight .outside = 0) :
      total weight (Function.update state.phase thread (.waiting false)) =
        total weight state.phase + weight (.waiting false) :=
    total_update_of_zero (by rw [outside, zero]) _
  have none (weight : CheckPhase T → Multiset T) (zero : weight .outside = 0)
      (also : weight (.waiting false) = 0) :
      total weight (Function.update state.phase thread (.waiting false)) =
        total weight state.phase := by
    rw [update weight zero, also, add_zero]
  refine
    { consistent with
      pieces := ?_
      idle := ?_
      threads := ?_
      sound := consistent.sound_update trivial
      calledLe := ?_
      calledAll := ?_
      master := ?_ }
  · rw [none vChecks rfl rfl]
    exact consistent.pieces
  · rw [update CheckPhase.idle rfl, consistent.idle]
    rfl
  · rw [update inLoop rfl, consistent.threads]
    exact (add_zero _).symm
  · rw [none seen rfl rfl]
    exact consistent.calledLe
  · rw [none seen rfl rfl]
    exact consistent.calledAll
  · dsimp only
    by_cases isMaster : thread = Option.none
    · subst isMaster
      rw [Function.update_self]
      exact ⟨empty, fun _ => some_ rfl⟩
    · rw [Function.update_of_ne (Ne.symm isMaster)]
      exact consistent.master

/-- A thread takes a batch. -/
theorem Consistent.take (consistent : Consistent check 1 state) {thread : Option ι}
    (outside : state.phase thread = .outside) (more : state.queue ≠ []) :
    Consistent check 0
      { state with
        queue := state.queue.take (state.queue.length - state.nNow)
        phase := Function.update state.phase thread
          (.working [] (state.queue.reverse.take state.nNow) state.fAllOk) } := by
  generalize batch : state.queue.reverse.take state.nNow = left
  have update {M : Type} [AddCommMonoid M] (weight : CheckPhase T → M)
      (zero : weight .outside = 0) :
      total weight (Function.update state.phase thread (.working [] left state.fAllOk)) =
        total weight state.phase + weight (.working [] left state.fAllOk) :=
    total_update_of_zero (by rw [outside, zero]) _
  have nothing : total seen (Function.update state.phase thread (.working [] left state.fAllOk)) =
      total seen state.phase := by
    rw [update seen rfl]
    exact add_zero _
  have split : (state.queue : Multiset T) =
      ↑(state.queue.take (state.queue.length - state.nNow)) + ↑left := by
    rw [← batch, List.take_reverse, Multiset.coe_reverse, Multiset.coe_add, List.take_append_drop]
  have nonempty : left ≠ [] := by
    intro none
    have size := congrArg List.length batch
    have positive := nNow_pos state
    have bound := nNow_le more
    rw [none, List.length_take, List.length_reverse, List.length_nil] at size
    omega
  refine
    { consistent with
      pieces := ?_
      idle := ?_
      threads := ?_
      sound := consistent.sound_update ⟨nonempty, ?_⟩
      calledLe := ?_
      calledAll := ?_
      master := ?_ }
  · rw [update vChecks rfl, consistent.pieces, ← Multiset.coe_add, split, ← Multiset.coe_add]
    simp only [vChecks, List.nil_append]
    abel
  · rw [update CheckPhase.idle rfl, consistent.idle]
    exact (add_zero _).symm
  · rw [update inLoop rfl, consistent.threads]
    exact (add_zero _).symm
  · exact ⟨fun _ item member => absurd member List.not_mem_nil, consistent.judged.2⟩
  · rw [nothing]
    exact consistent.calledLe
  · rw [nothing]
    exact consistent.calledAll
  · dsimp only
    by_cases isMaster : thread = none
    · subst isMaster
      rw [Function.update_self]
      trivial
    · rw [Function.update_of_ne (Ne.symm isMaster)]
      have master := consistent.master
      cases phase : state.phase none with
      | outside => trivial
      | working before rest fOk => trivial
      | waiting notified =>
          rw [phase] at master
          exact absurd master.1 more

/-- The loop goes on with the lock. -/
theorem Consistent.loopHead (consistent : Consistent check 1 state) {thread : Option ι}
    (outside : state.phase thread = .outside) : Consistent check 0 (state.loopHead thread) := by
  unfold CCheckQueue.loopHead
  split
  · rename_i empty
    rw [List.isEmpty_iff] at empty
    split
    · rename_i ended
      exact consistent.leave outside empty ended.2
    · rename_i going
      refine consistent.wait outside empty fun isMaster done => ?_
      exact going ⟨.inl isMaster, done⟩
  · rename_i more
    rw [List.isEmpty_iff] at more
    exact consistent.take outside more

/-! ## Steps -/

omit [Fintype ι] [DecidableEq ι] in
/-- A notification is seen by the threads that wait alone. -/
theorem notify_cases (chosen : Option ι → Bool) (phase : Option ι → CheckPhase T)
    (thread : Option ι) :
    notify chosen phase thread = phase thread ∨
      ∃ notified, phase thread = .waiting notified ∧
        notify chosen phase thread = .waiting (notified || chosen thread) := by
  unfold notify
  cases phase thread with
  | outside => exact .inl rfl
  | working before left fOk => exact .inl rfl
  | waiting notified => exact .inr ⟨notified, rfl, rfl⟩

omit [DecidableEq ι] in
theorem total_notify {M : Type} [AddCommMonoid M] {weight : CheckPhase T → M}
    (same : ∀ first second, weight (.waiting first) = weight (.waiting second))
    (chosen : Option ι → Bool) (phase : Option ι → CheckPhase T) :
    total weight (notify chosen phase) = total weight phase := by
  refine total_congr fun thread => ?_
  rcases notify_cases chosen phase thread with equal | ⟨notified, before, after⟩
  · rw [equal]
  · rw [before, after]
    exact same _ _

omit [Fintype ι] [DecidableEq ι] in
theorem sound_notify {added : List T} {chosen : Option ι → Bool}
    {phase : Option ι → CheckPhase T} (thread : Option ι)
    (sound : (phase thread).Sound check added) :
    (notify chosen phase thread).Sound check added := by
  rcases notify_cases chosen phase thread with equal | ⟨notified, -, after⟩
  · rwa [equal]
  · rw [after]
    trivial

omit [DecidableEq ι] in
/-- Some threads are notified. -/
theorem Counted.notify (counted : Counted check within state) (chosen : Option ι → Bool) :
    Counted check within { state with phase := notify chosen state.phase } := by
  refine
    { counted with
      pieces := ?_
      idle := ?_
      threads := ?_
      sound := fun thread => sound_notify thread (counted.sound thread)
      calledLe := ?_
      calledAll := ?_ }
  · rw [total_notify fun _ _ => rfl]
    exact counted.pieces
  · rw [total_notify fun _ _ => rfl]
    exact counted.idle
  · rw [total_notify fun _ _ => rfl]
    exact counted.threads
  · rw [total_notify fun _ _ => rfl]
    exact counted.calledLe
  · rw [total_notify fun _ _ => rfl]
    exact counted.calledAll

omit [Fintype ι] [DecidableEq ι] in
theorem masterWaits_notify {queue : List T} {nTodo : Nat} {chosen : Option ι → Bool}
    {phase : Option ι → CheckPhase T} (master : (phase none).MasterWaits queue nTodo) :
    (notify chosen phase none).MasterWaits queue nTodo := by
  rcases notify_cases chosen phase none with equal | ⟨notified, before, after⟩
  · rwa [equal]
  · rw [before] at master
    rw [after]
    refine ⟨master.1, fun unseen => master.2 ?_⟩
    rw [Bool.or_eq_false_iff] at unseen
    exact unseen.1

/-- The callers have fewer than `2 ^ 32` checks at a time. -/
def Fits (state : CCheckQueue T ι) : CheckStep T ι → Prop
  | .add vChecks _ => state.added.length + vChecks.length < 2 ^ 32
  | _ => True

omit [DecidableEq ι] in
/-- The master adds checks. -/
theorem Consistent.add (consistent : Consistent check 0 state) {vChecks : List T}
    (outside : state.phase none = .outside)
    (fits : state.added.length + vChecks.length < 2 ^ 32) :
    Consistent check 0
      { state with
        queue := state.queue ++ vChecks
        nTodo := (state.nTodo + vChecks.length) % 2 ^ 32
        added := state.added ++ vChecks } := by
  have todo := consistent.todo
  have exact : (state.nTodo + vChecks.length) % 2 ^ 32 = state.nTodo + vChecks.length :=
    Nat.mod_eq_of_lt (by omega)
  refine
    { consistent with
      todo := ?_
      few := ?_
      pieces := ?_
      sound := ?_
      judged := consistent.judged.mono vChecks
      calledAll := ?_
      master := ?_ }
  · dsimp only
    rw [exact, List.length_append]
    omega
  · rwa [List.length_append]
  · rw [← Multiset.coe_add, consistent.pieces]
    simp only [← Multiset.coe_add]
    abel
  · intro thread
    have sound := consistent.sound thread
    dsimp only
    cases phase : state.phase thread with
    | outside => trivial
    | waiting notified => trivial
    | working before left fOk =>
        rw [phase] at sound
        exact ⟨sound.1, sound.2.mono vChecks⟩
  · intro pass
    exact consistent.calledAll fun item member => pass item (List.mem_append_left _ member)
  · rw [outside]
    trivial

/-- A thread runs the next check of its batch. -/
theorem Consistent.runCheck (consistent : Consistent check 0 state) {thread : Option ι}
    {done left : List T} {next : T} {fOk : Bool}
    (working : state.phase thread = .working done (next :: left) fOk) :
    Consistent check 0
      { state with
        called := if fOk then state.called ++ [next] else state.called
        phase := Function.update state.phase thread
          (.working (done ++ [next]) left (fOk && check next)) } := by
  have member : next ∈ state.added := by
    have inside : next ∈ (state.phase thread).vChecks := by
      rw [working]
      exact Multiset.mem_coe.mpr (by simp)
    exact consistent.mem_added inside
  have sound := consistent.sound thread
  rw [working] at sound
  have same {M : Type} [AddCancelCommMonoid M] (weight : CheckPhase T → M)
      (equal : weight (.working (done ++ [next]) left (fOk && check next)) =
        weight (.working done (next :: left) fOk)) :
      total weight (Function.update state.phase thread
        (.working (done ++ [next]) left (fOk && check next))) = total weight state.phase := by
    have changed := total_update weight state.phase thread
      (.working (done ++ [next]) left (fOk && check next))
    rw [working, equal] at changed
    exact add_right_cancel changed
  have more : total seen (Function.update state.phase thread
      (.working (done ++ [next]) left (fOk && check next))) =
        total seen state.phase + ({next} : Multiset T) := by
    have changed := total_update seen state.phase thread
      (.working (done ++ [next]) left (fOk && check next))
    rw [working] at changed
    have grown : seen (.working (done ++ [next]) left (fOk && check next)) =
        ({next} : Multiset T) + seen (.working done (next :: left) fOk) := by
      simp only [seen, ← Multiset.coe_add, Multiset.coe_singleton]
      exact add_comm _ _
    rw [grown, ← add_assoc] at changed
    exact add_right_cancel changed
  refine
    { consistent with
      pieces := ?_
      idle := ?_
      threads := ?_
      sound := consistent.sound_update ⟨by simp, ?_⟩
      calledLe := ?_
      calledAll := ?_
      master := ?_ }
  · rw [same vChecks (by simp [vChecks])]
    exact consistent.pieces
  · rw [same CheckPhase.idle rfl]
    exact consistent.idle
  · rw [same inLoop rfl]
    exact consistent.threads
  · exact sound.2.append (judged_singleton check member)
  · rw [more, ← add_assoc]
    cases fOk with
    | true =>
        rw [if_pos rfl, ← Multiset.coe_add, Multiset.coe_singleton]
        exact add_le_add_left consistent.calledLe _
    | false => exact consistent.calledLe.trans (Multiset.le_add_right _ _)
  · intro pass
    cases fOk with
    | true =>
        rw [if_pos rfl, more, ← Multiset.coe_add, consistent.calledAll pass,
          Multiset.coe_singleton, add_assoc]
    | false =>
        obtain ⟨item, inside, fails⟩ := sound.2.2 rfl
        rw [pass item inside] at fails
        cases fails
  · dsimp only
    by_cases isMaster : thread = none
    · subst isMaster
      rw [Function.update_self]
      trivial
    · rw [Function.update_of_ne (Ne.symm isMaster)]
      exact consistent.master

/-- `cond.wait` returns, and the thread has the lock. -/
theorem Consistent.awake (consistent : Consistent check 0 state) {thread : Option ι}
    {notified : Bool} (waiting : state.phase thread = .waiting notified) :
    Consistent check 1
      { state with
        nIdle := state.nIdle - 1
        phase := Function.update state.phase thread .outside } := by
  have freed {M : Type} [AddCommMonoid M] (weight : CheckPhase T → M)
      (zero : weight .outside = 0) :
      total weight (Function.update state.phase thread .outside) + weight (.waiting notified) =
        total weight state.phase := by
    have changed := total_update_to_zero state.phase thread zero
    rwa [waiting] at changed
  have same (weight : CheckPhase T → Multiset T) (zero : weight .outside = 0)
      (also : weight (.waiting notified) = 0) :
      total weight (Function.update state.phase thread .outside) = total weight state.phase := by
    rw [← freed weight zero, also, add_zero]
  refine
    { consistent with
      pieces := ?_
      idle := ?_
      threads := ?_
      sound := consistent.sound_update trivial
      calledLe := ?_
      calledAll := ?_
      master := ?_ }
  · rw [same vChecks rfl rfl]
    exact consistent.pieces
  · rw [consistent.idle, ← freed CheckPhase.idle rfl]
    exact add_sub_cancel_right _ _
  · rw [consistent.threads, ← freed inLoop rfl]
    exact add_zero _
  · rw [same seen rfl rfl]
    exact consistent.calledLe
  · rw [same seen rfl rfl]
    exact consistent.calledAll
  · dsimp only
    by_cases isMaster : thread = none
    · subst isMaster
      rw [Function.update_self]
      trivial
    · rw [Function.update_of_ne (Ne.symm isMaster)]
      exact consistent.master

/-- A thread is done with its batch, and has the lock. The master is notified if nothing is left,
so that a master that sleeps has something to wait for. -/
theorem Consistent.finish (consistent : Consistent check 0 state) {thread : Option ι}
    {done : List T} {fOk : Bool} (working : state.phase thread = .working done [] fOk) :
    Consistent check 1
      { state with
        fAllOk := state.fAllOk && fOk
        nTodo := (state.nTodo + 2 ^ 32 - done.length) % 2 ^ 32
        finished := state.finished ++ done
        phase :=
          if (state.nTodo + 2 ^ 32 - done.length) % 2 ^ 32 = 0 ∧ thread ≠ none then
            CCheckQueue.notify (fun other => other == none)
              (Function.update state.phase thread .outside)
          else Function.update state.phase thread .outside } := by
  have sound := consistent.sound thread
  rw [working] at sound
  have freed {M : Type} [AddCommMonoid M] (weight : CheckPhase T → M)
      (zero : weight .outside = 0) :
      total weight (Function.update state.phase thread .outside) +
        weight (.working done [] fOk) = total weight state.phase := by
    have changed := total_update_to_zero state.phase thread zero
    rwa [working] at changed
  have batch : total vChecks (Function.update state.phase thread .outside) + ↑done =
      total vChecks state.phase := by
    have changed := freed vChecks rfl
    rwa [vChecks, List.append_nil] at changed
  have tried : total seen (Function.update state.phase thread .outside) + ↑done =
      total seen state.phase := freed seen rfl
  have held : done.length ≤ state.nTodo := by
    have size := congrArg Multiset.card consistent.pieces
    rw [← batch, Multiset.card_add, Multiset.card_add, Multiset.coe_card, Multiset.coe_card,
      Multiset.coe_card, List.length_append] at size
    have todo := consistent.todo
    omega
  have exact : (state.nTodo + 2 ^ 32 - done.length) % 2 ^ 32 = state.nTodo - done.length := by
    have todo := consistent.todo
    have few := consistent.few
    rw [Nat.add_comm, Nat.add_sub_assoc held, Nat.add_mod_left, Nat.mod_eq_of_lt (by omega)]
  rw [exact]
  have counted : Counted check 1
      { state with
        fAllOk := state.fAllOk && fOk
        nTodo := state.nTodo - done.length
        finished := state.finished ++ done
        phase := Function.update state.phase thread .outside } := by
    refine
      { consistent.toCounted with
        todo := ?_
        pieces := ?_
        idle := ?_
        threads := ?_
        sound := consistent.sound_update trivial
        judged := consistent.judged.append sound.2
        calledLe := ?_
        calledAll := ?_ }
    · dsimp only
      rw [List.length_append, ← consistent.todo]
      omega
    · rw [consistent.pieces, ← batch]
      simp only [← Multiset.coe_add]
      abel
    · rw [consistent.idle, ← freed CheckPhase.idle rfl]
      exact add_zero _
    · rw [consistent.threads, ← freed inLoop rfl]
      exact add_zero _
    · rw [← Multiset.coe_add, add_assoc, add_comm (done : Multiset T), tried]
      exact consistent.calledLe
    · rw [← Multiset.coe_add, add_assoc, add_comm (done : Multiset T), tried]
      exact consistent.calledAll
  by_cases isMaster : thread = none
  · subst isMaster
    rw [if_neg fun both => both.2 rfl]
    refine ⟨counted, ?_⟩
    dsimp only
    rw [Function.update_self]
    trivial
  · have master := consistent.master
    have unchanged : Function.update state.phase thread .outside none = state.phase none :=
      Function.update_of_ne (Ne.symm isMaster) _ _
    by_cases last : state.nTodo - done.length = 0
    · rw [if_pos ⟨last, isMaster⟩]
      refine ⟨counted.notify _, ?_⟩
      dsimp only
      rcases notify_cases (fun other => other == none)
        (Function.update state.phase thread .outside) none with equal | ⟨notified, before, after⟩
      · rw [equal, unchanged]
        cases phase : state.phase none with
        | outside => trivial
        | working before rest ok => trivial
        | waiting notified =>
            rw [notify, unchanged, phase] at equal
            have told : notified = true := by simpa using equal
            rw [phase] at master
            refine ⟨master.1, fun unseen => ?_⟩
            rw [told] at unseen
            cases unseen
      · rw [unchanged] at before
        rw [before] at master
        rw [after]
        refine ⟨master.1, fun unseen => ?_⟩
        rw [Bool.or_eq_false_iff] at unseen
        cases unseen.2
    · rw [if_neg fun both => last both.1]
      refine ⟨counted, ?_⟩
      dsimp only
      rw [unchanged]
      cases phase : state.phase none with
      | outside => trivial
      | working before rest ok => trivial
      | waiting notified =>
          rw [phase] at master
          exact ⟨master.1, fun _ => last⟩

/-- **The step lemma.** -/
theorem Consistent.step (consistent : Consistent check 0 state) {next : CheckStep T ι}
    (fits : state.Fits next) : Consistent check 0 (state.step check next) := by
  cases next with
  | add vChecks lucky =>
      unfold CCheckQueue.step
      dsimp only
      split
      · rename_i outside
        have added := consistent.add outside fits
        refine ⟨added.notify _, ?_⟩
        dsimp only
        exact masterWaits_notify added.master
      · exact consistent
  | enter thread =>
      unfold CCheckQueue.step
      dsimp only
      split
      · rename_i outside
        refine Consistent.loopHead ?_ outside
        refine { consistent with threads := ?_ }
        rw [consistent.threads]
        exact congrArg (· + 1) (add_zero _)
      · exact consistent
  | wake thread =>
      unfold CCheckQueue.step
      dsimp only
      split
      · rename_i notified waiting
        exact (consistent.awake waiting).loopHead (Function.update_self _ _ _)
      · exact consistent
  | check thread =>
      unfold CCheckQueue.step
      dsimp only
      split
      · rename_i done next left fOk working
        exact consistent.runCheck working
      · exact consistent
  | finish thread =>
      unfold CCheckQueue.step
      dsimp only
      split
      · rename_i done fOk working
        refine (consistent.finish working).loopHead ?_
        dsimp only
        split
        · unfold CCheckQueue.notify
          rw [Function.update_self]
        · exact Function.update_self _ _ _
      · exact consistent

/-! ## Runs -/

/-- A queue that is not used yet. -/
def unused (T ι : Type) (nBatchSize : Nat) : CCheckQueue T ι := { nBatchSize }

omit [DecidableEq ι] in
theorem total_unused {M : Type} [AddCommMonoid M] {weight : CheckPhase T → M}
    (zero : weight .outside = 0) (nBatchSize : Nat) :
    total weight (unused T ι nBatchSize).phase = 0 :=
  Finset.sum_eq_zero fun _ _ => zero

omit [DecidableEq ι] in
theorem consistent_unused (nBatchSize : Nat) :
    Consistent check 0 (unused T ι nBatchSize) where
  running := rfl
  todo := rfl
  few := Nat.two_pow_pos 32
  pieces := by
    rw [total_unused rfl]
    rfl
  idle := (total_unused rfl nBatchSize).symm
  threads := by
    rw [total_unused rfl]
    rfl
  sound := fun _ => trivial
  judged := ⟨fun _ item member => absurd member List.not_mem_nil, nofun⟩
  calledLe := Multiset.zero_le _
  calledAll := by
    intro _
    rw [total_unused rfl]
    rfl
  verdicts := fun _ member => absurd member List.not_mem_nil
  master := trivial

/-- **The run lemma.** -/
theorem consistent_of_steps {nBatchSize : Nat} {steps : List (CheckStep T ι)}
    (fits : Run.AllSteps (step check) Fits (unused T ι nBatchSize) steps) :
    ∀ state ∈ Run.states (step check) (unused T ι nBatchSize) steps,
      Consistent check 0 state := by
  have keeps (state : CCheckQueue T ι) (next : CheckStep T ι) (fits : state.Fits next)
      (consistent : Consistent check 0 state) : Consistent check 0 (state.step check next) :=
    consistent.step fits
  exact Run.invariant_states_of_steps keeps (consistent_unused nBatchSize) fits

/-- **What `Wait` returns is exact**, in whatever order the threads take their steps: it is
whether all checks pass that were added, none of them was called twice, and all were if it is
true. -/
theorem wait_exact {nBatchSize : Nat} {steps : List (CheckStep T ι)}
    (fits : Run.AllSteps (step check) Fits (unused T ι nBatchSize) steps) :
    ∀ state ∈ Run.states (step check) (unused T ι nBatchSize) steps,
      ∀ verdict ∈ state.returned, verdict.Exact check :=
  fun state reached => (consistent_of_steps fits state reached).verdicts

omit [DecidableEq ι] in
/-- A queue to which nothing was added is idle. -/
theorem Consistent.isIdle (consistent : Consistent check 0 state) (nothing : state.added = []) :
    state.isIdle = true := by
  have todo := consistent.todo
  rw [nothing, List.length_nil] at todo
  have batches : total vChecks state.phase = 0 := by
    have pieces := consistent.pieces
    rw [nothing] at pieces
    exact (add_eq_zero.mp pieces.symm).2
  have threads : state.nTotal = state.nIdle := by
    rw [consistent.threads, consistent.idle, add_zero]
    refine Finset.sum_congr rfl fun thread _ => ?_
    have sound := consistent.sound thread
    have none := eq_zero_of_total batches thread
    cases phase : state.phase thread with
    | outside => rfl
    | waiting notified => rfl
    | working done left fOk =>
        rw [phase] at none sound
        exact absurd ((Multiset.coe_eq_zero _).mp none) sound.1
  have ok : state.fAllOk = true := by
    by_contra bad
    obtain ⟨item, member, -⟩ := consistent.judged.2 (Bool.not_eq_true _ ▸ bad)
    rw [nothing] at member
    cases member
  rw [CCheckQueue.isIdle, threads, ok, show state.nTodo = 0 by omega]
  simp

omit [DecidableEq ι] in
/-- While a master sleeps that was not notified, a worker has a batch. -/
theorem Consistent.working_of_asleep (consistent : Consistent check 0 state)
    (asleep : state.phase none = .waiting false) :
    ∃ worker done left fOk, state.phase (some worker) = .working done left fOk := by
  have master := consistent.master
  rw [asleep] at master
  by_contra nobody
  refine master.2 rfl ?_
  have batches : total vChecks state.phase = 0 := by
    refine Finset.sum_eq_zero fun thread _ => ?_
    cases phase : state.phase thread with
    | outside => rfl
    | waiting notified => rfl
    | working done left fOk =>
        cases thread with
        | none =>
            rw [asleep] at phase
            cases phase
        | some worker => exact absurd ⟨worker, done, left, fOk, phase⟩ nobody
  have size := congrArg Multiset.card consistent.pieces
  rw [batches, add_zero, Multiset.coe_card, Multiset.coe_card, List.length_append, master.1,
    List.length_nil] at size
  have todo := consistent.todo
  omega

/-- **The queue is idle when its use begins, and no notification is lost.** Whenever nothing has
been added since the last return, the assertion of `CCheckQueueControl` holds; and a master that
sleeps without a notification leaves a worker with a batch, which notifies it. -/
theorem idle_and_woken {nBatchSize : Nat} {steps : List (CheckStep T ι)}
    (fits : Run.AllSteps (step check) Fits (unused T ι nBatchSize) steps) :
    ∀ state ∈ Run.states (step check) (unused T ι nBatchSize) steps,
      (state.added = [] → state.isIdle = true) ∧
        (state.phase none = .waiting false →
          ∃ worker done left fOk, state.phase (some worker) = .working done left fOk) :=
  fun state reached =>
    ⟨(consistent_of_steps fits state reached).isIdle,
      (consistent_of_steps fits state reached).working_of_asleep⟩

/-- A worker waits, the master adds two checks and helps, and sleeps until the worker is done. -/
def twoChecks : List (CheckStep Nat Unit) :=
  [.enter (some ()), .add [3, 4] none, .enter none, .wake (some ()), .check none, .finish none,
    .check (some ()), .finish (some ()), .wake none]

theorem fits_twoChecks :
    Run.AllSteps (step fun item => decide (item < 4)) Fits (unused Nat Unit 128) twoChecks :=
  ⟨trivial, (by decide : 0 + 2 < 2 ^ 32), trivial, trivial, trivial, trivial, trivial, trivial,
    trivial, trivial⟩

/-- One of the two checks fails. -/
theorem wait_exact_twoChecks :
    (twoChecks.foldl (step fun item => decide (item < 4)) (unused Nat Unit 128)).returned =
        [⟨false, [3, 4], [4, 3]⟩] ∧
      ∀ verdict ∈
        (twoChecks.foldl (step fun item => decide (item < 4)) (unused Nat Unit 128)).returned,
        verdict.Exact fun item => decide (item < 4) :=
  ⟨by decide, wait_exact fits_twoChecks _ (Run.foldl_mem_states _ _)⟩

/-- At the end the queue is idle again. -/
theorem idle_and_woken_twoChecks :
    (twoChecks.foldl (step fun item => decide (item < 4)) (unused Nat Unit 128)).isIdle = true :=
  (idle_and_woken fits_twoChecks _ (Run.foldl_mem_states _ _)).1 (by decide)

end CCheckQueue

end GiantCore
