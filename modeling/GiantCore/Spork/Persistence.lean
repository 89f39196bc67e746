import GiantCore.Spork.Spork

/-! # Sporks across a restart

The database and the memory have the same sporks as long as no spork is set by the node
itself: `UpdateSpork` puts its message into memory only, so that a restart brings the
earlier one back.
-/

namespace GiantCore

/-- What is done to the sporks, with what it reads. -/
inductive SporkCall where
  | restart (ctx : SporkContext)
  | processSpork (ctx : SporkContext) (spork : CSporkMessage)
  | updateSpork (ctx : SporkContext) (nSporkID nValue : Int)

namespace SporkState

def call (state : SporkState) : SporkCall → SporkState
  | .restart ctx => state.restart ctx
  | .processSpork ctx spork => (state.processSpork ctx spork).1
  | .updateSpork ctx nSporkID nValue => (state.updateSpork ctx nSporkID nValue).1

/-- **The database has the active sporks**, so that a restart keeps them. -/
structure SurvivesRestart (state : SporkState) : Prop where
  stored : ∀ id, state.sporkDB id = state.mapSporksActive id
  kept : ∀ ctx id, (state.restart ctx).mapSporksActive id = state.mapSporksActive id

/-- What is in the database is under its own number, which is that of a spork. -/
def Keyed (state : SporkState) : Prop :=
  ∀ id spork, state.sporkDB id = some spork →
    spork.nSporkID = id ∧ getSporkNameByID id ≠ "Unknown"

/-- `UpdateSpork` does not sign, or its message is the active one already. -/
def UpdatesNothing (state : SporkState) : SporkCall → Prop
  | .restart _ => True
  | .processSpork _ _ => True
  | .updateSpork ctx nSporkID nValue =>
      ∀ msg, ctx.sign { nSporkID, nValue, nTimeSigned := ctx.node.time, vchSig := [] } = some msg →
        state.mapSporksActive nSporkID = some msg

variable {ctx : SporkContext} {state : SporkState}

@[simp] theorem mapSporksActive_activate (spork : CSporkMessage) (id : Int) :
    (state.activate ctx spork).mapSporksActive id =
      if id = spork.nSporkID then some spork else state.mapSporksActive id :=
  Function.update_apply ..

@[simp] theorem sporkDB_activate (spork : CSporkMessage) :
    (state.activate ctx spork).sporkDB = state.sporkDB := rfl

@[simp] theorem sporkDB_writeSpork (spork : CSporkMessage) (id : Int) :
    (state.writeSpork spork).sporkDB id =
      if id = spork.nSporkID then some spork else state.sporkDB id :=
  Function.update_apply ..

@[simp] theorem mapSporksActive_writeSpork (spork : CSporkMessage) :
    (state.writeSpork spork).mapSporksActive = state.mapSporksActive := rfl

/-! ## The start -/

theorem sporkDB_loadSpork (i : Nat) : (loadSpork ctx state i).sporkDB = state.sporkDB := by
  unfold loadSpork
  split
  · rfl
  · cases state.sporkDB i with
    | none => rfl
    | some spork => rfl

theorem sporkDB_foldl_loadSpork (ids : List Nat) :
    (ids.foldl (loadSpork ctx) state).sporkDB = state.sporkDB := by
  induction ids generalizing state with
  | nil => rfl
  | cons i rest ih => rw [List.foldl_cons, ih, sporkDB_loadSpork]

theorem sporkDB_restart : (state.restart ctx).sporkDB = state.sporkDB :=
  sporkDB_foldl_loadSpork _

theorem mapSporksActive_loadSpork (keyed : Keyed state) (i : Nat) (id : Int) :
    (loadSpork ctx state i).mapSporksActive id =
      if id = i then (state.sporkDB id).or (state.mapSporksActive id)
      else state.mapSporksActive id := by
  unfold loadSpork
  cases stored : state.sporkDB i with
  | none =>
      simp only [Option.elim_none, ite_self]
      split
      · rename_i same
        rw [same, stored, Option.none_or]
      · rfl
  | some spork =>
      obtain ⟨own, known⟩ := keyed i spork stored
      rw [if_neg (by simpa using known), Option.elim_some, mapSporksActive_activate, own]
      split
      · rename_i same
        rw [same, stored, Option.some_or]
      · rfl

theorem mapSporksActive_foldl_loadSpork (keyed : Keyed state) (ids : List Nat) (id : Int) :
    (ids.foldl (loadSpork ctx) state).mapSporksActive id =
      if id ∈ ids.map Nat.cast then (state.sporkDB id).or (state.mapSporksActive id)
      else state.mapSporksActive id := by
  induction ids generalizing state with
  | nil => rfl
  | cons i rest ih =>
      have keyedNext : Keyed (loadSpork ctx state i) := by
        unfold Keyed
        rw [sporkDB_loadSpork]
        exact keyed
      rw [List.foldl_cons, ih keyedNext, sporkDB_loadSpork, mapSporksActive_loadSpork keyed,
        List.map_cons]
      by_cases later : id ∈ rest.map Nat.cast
      · rw [if_pos later, if_pos (List.mem_cons_of_mem _ later)]
        split
        · cases state.sporkDB id with
          | none => rfl
          | some spork => rfl
        · rfl
      · rw [if_neg later]
        by_cases same : id = i
        · rw [if_pos same, if_pos (same ▸ List.mem_cons_self)]
        · rw [if_neg same, if_neg (List.not_mem_cons_of_ne_of_not_mem same later)]

/-- The loop reaches every spork. -/
theorem mem_range_of_name {id : Int} (known : getSporkNameByID id ≠ "Unknown") :
    id ∈ (List.range' sporkStart (sporkEnd + 1 - sporkStart)).map Nat.cast := by
  have all : ∀ entry ∈ sporkNames,
      entry.1 ∈ (List.range' sporkStart (sporkEnd + 1 - sporkStart)).map Nat.cast := by decide
  obtain ⟨entry, member, rfl⟩ := exists_entry_of_name known
  exact all entry member

/-- **A restart brings back what the database has.** -/
theorem mapSporksActive_restart (keyed : Keyed state) (id : Int) :
    (state.restart ctx).mapSporksActive id = state.sporkDB id := by
  have keyedEmpty : Keyed { sporkDB := state.sporkDB } := keyed
  unfold restart loadSporksFromDB
  rw [mapSporksActive_foldl_loadSpork keyedEmpty]
  cases stored : state.sporkDB id with
  | none =>
      dsimp only
      rw [Option.none_or, ite_self]
  | some spork =>
      dsimp only
      rw [if_pos (mem_range_of_name (keyed id spork stored).2), Option.some_or]

/-! ## One call -/

theorem processSpork_cases (ctx : SporkContext) (state : SporkState) (spork : CSporkMessage) :
    (state.processSpork ctx spork).1 = state ∨
    (getSporkNameByID spork.nSporkID ≠ "Unknown" ∧ ctx.checkSignature spork false = true ∧
      (ctx.newSporkStart ≤ spork.nTimeSigned → ctx.checkSignature spork true = true) ∧
      (state.processSpork ctx spork).1 = (state.activate ctx spork).writeSpork spork) := by
  unfold processSpork
  split
  · exact Or.inl rfl
  · split
    · exact Or.inl rfl
    · split
      · exact Or.inl rfl
      · rename_i known
        split
        · exact Or.inl rfl
        · split
          · exact Or.inl rfl
          · rename_i strict
            split
            · exact Or.inl rfl
            · rename_i valid
              refine Or.inr ⟨by simpa using known, by simpa using valid, ?_, rfl⟩
              intro late
              simpa [late] using strict

theorem Keyed.call (keyed : Keyed state) (call : SporkCall) : Keyed (state.call call) := by
  cases call with
  | restart ctx =>
      show Keyed (state.restart ctx)
      unfold Keyed
      rw [sporkDB_restart]
      exact keyed
  | processSpork ctx spork =>
      show Keyed (state.processSpork ctx spork).1
      rcases processSpork_cases ctx state spork with same | ⟨known, -, -, went⟩
      · rw [same]
        exact keyed
      · rw [went]
        intro id other stored
        rw [sporkDB_writeSpork, sporkDB_activate] at stored
        split at stored
        · rename_i same
          cases stored
          exact ⟨same.symm, same ▸ known⟩
        · exact keyed id other stored
  | updateSpork ctx nSporkID nValue =>
      show Keyed (state.updateSpork ctx nSporkID nValue).1
      unfold updateSpork
      split
      · exact keyed
      · exact keyed

/-- With the sporks in the database, a restart keeps them. -/
theorem survivesRestart_iff (keyed : Keyed state) :
    SurvivesRestart state ↔ ∀ id, state.sporkDB id = state.mapSporksActive id := by
  refine ⟨fun survives => survives.stored, fun stored => ⟨stored, ?_⟩⟩
  intro ctx id
  rw [mapSporksActive_restart keyed, stored]

/-- **One call** keeps the database equal to the memory exactly if it updates nothing. -/
theorem survivesRestart_call_iff (keyed : Keyed state) (survives : SurvivesRestart state)
    (call : SporkCall) : SurvivesRestart (state.call call) ↔ state.UpdatesNothing call := by
  rw [survivesRestart_iff (keyed.call call)]
  cases call with
  | restart ctx =>
      refine iff_of_true ?_ trivial
      intro id
      show (state.restart ctx).sporkDB id = (state.restart ctx).mapSporksActive id
      rw [sporkDB_restart, mapSporksActive_restart keyed]
  | processSpork ctx spork =>
      refine iff_of_true ?_ trivial
      show ∀ id, (state.processSpork ctx spork).1.sporkDB id =
        (state.processSpork ctx spork).1.mapSporksActive id
      rcases processSpork_cases ctx state spork with same | ⟨-, -, -, went⟩
      · rw [same]
        exact survives.stored
      · rw [went]
        intro id
        rw [sporkDB_writeSpork, sporkDB_activate, mapSporksActive_writeSpork,
          mapSporksActive_activate, survives.stored]
  | updateSpork ctx nSporkID nValue =>
      show (∀ id, (state.updateSpork ctx nSporkID nValue).1.sporkDB id =
        (state.updateSpork ctx nSporkID nValue).1.mapSporksActive id) ↔ _
      unfold updateSpork
      cases signed : ctx.sign
          { nSporkID, nValue, nTimeSigned := ctx.node.time, vchSig := [] } with
      | none =>
          refine iff_of_true survives.stored ?_
          intro msg found
          rw [signed] at found
          cases found
      | some msg =>
          have own : msg.nSporkID = nSporkID := by
            obtain ⟨vchSig, -, rfl⟩ := Option.map_eq_some_iff.mp signed
            rfl
          simp only [sporkDB_activate, mapSporksActive_activate, own]
          constructor
          · intro stored other found
            rw [signed] at found
            cases found
            have here := stored nSporkID
            rwa [if_pos rfl, survives.stored] at here
          · intro active id
            split
            · rename_i same
              rw [same, survives.stored, active msg signed]
            · exact survives.stored id

end SporkState

open SporkState

/-- **Sporks survive a restart** in every state of a run exactly if every `UpdateSpork` of
the run does not sign or signs the message that is active already. -/
theorem sporks_survive_iff (calls : List SporkCall) :
    (∀ state ∈ Foundation.Run.states SporkState.call {} calls, SurvivesRestart state) ↔
      Foundation.Run.AllSteps SporkState.call UpdatesNothing {} calls := by
  have keyed : Keyed {} := by
    intro id spork stored
    cases stored
  refine Foundation.Run.forall_states_iff Keyed SurvivesRestart
    (fun state call before => before.call call) ?_ keyed
    ((survivesRestart_iff keyed).mpr fun _ => rfl) (fun _ _ => trivial)
  intro state call _ before survives
  exact survivesRestart_call_iff before survives call

/-- A node that signs sporks, and takes what the holder of the key signed. -/
def SporkContext.main (verifyMessage : CPubKey → List UInt8 → String → Bool) : SporkContext where
  node := { NodeContext.mainNode 400000 with verifyMessage }
  sporkKey := [4]
  sporkKeyOld := [4]
  newSporkStart := 1525158000
  rejectOldSporkKey := 1527811200
  getHash _ := 7
  signMessage _ := some [1]

/-- The node sets a spork. -/
theorem not_sporks_survive_update :
    ¬ ∀ calls, ∀ state ∈ Foundation.Run.states SporkState.call {} calls,
      SurvivesRestart state := by
  intro always
  have survives := always [.updateSpork (.main fun _ _ _ => true) 10001 5] _
    (Foundation.Run.foldl_mem_states _ _)
  have stored := survives.stored 10001
  revert stored
  decide +kernel

end GiantCore
