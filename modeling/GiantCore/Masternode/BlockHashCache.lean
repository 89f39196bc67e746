import GiantCore.Foundation.Run
import GiantCore.Primitives.Block

/-! # The block hashes behind masternode scores

`GetBlockHash` of `masternode.cpp` answers with the hash of the block below a height and remembers
its answers in `mapCacheBlockHashes`. Nothing is taken out of this map when a block is disconnected.
-/

namespace GiantCore

open GiantCore.Foundation.Run

/-- The active chain, by heights, and the answers that were given. -/
structure BlockHashes where
  vChain : List Uint256 := []
  mapCacheBlockHashes : Int → Option Uint256 := fun _ => none

inductive BlockHashesStep where
  | connectTip (hash : Uint256)
  | disconnectTip
  /-- A call of `GetBlockHash`. -/
  | ask (nBlockHeight : Int)

namespace BlockHashes

variable (state : BlockHashes)

/-- The height of the tip. -/
def height : Int := state.vChain.length - 1

def remember (nBlockHeight : Int) (hash : Uint256) : BlockHashes :=
  { state with
    mapCacheBlockHashes := Function.update state.mapCacheBlockHashes nBlockHeight (some hash) }

/-- The walk back from the tip. It stops above the genesis block. -/
def walkBack (nBlocksAgo : Int) : Int → List Uint256 → Option Uint256
  | _, [] => none
  | _, [_] => none
  | n, hash :: before :: rest =>
      if n ≥ nBlocksAgo then some hash else walkBack nBlocksAgo (n + 1) (before :: rest)

/-- The new state and the answer, if the call succeeds. -/
def getBlockHash (nBlockHeight : Int) : BlockHashes × Option Uint256 :=
  if state.vChain = [] then (state, none)
  else
    let nBlockHeight := if nBlockHeight = 0 then state.height else nBlockHeight
    match state.mapCacheBlockHashes nBlockHeight with
    | some hash => (state, some hash)
    | none =>
        if state.height = 0 ∨ state.height + 1 < nBlockHeight then (state, none)
        else
          let nBlocksAgo := if nBlockHeight > 0 then state.height + 1 - nBlockHeight else 0
          match walkBack nBlocksAgo 0 state.vChain.reverse with
          | none => (state, none)
          | some hash =>
              (state.remember nBlockHeight hash, some hash)

def step (state : BlockHashes) : BlockHashesStep → BlockHashes
  | .connectTip hash => { state with vChain := state.vChain ++ [hash] }
  | .disconnectTip => { state with vChain := state.vChain.dropLast }
  | .ask nBlockHeight => (state.getBlockHash nBlockHeight).1

/-- **Every answer within the chain is the hash of the block below**, as it is with an empty map. -/
def Faithful (state : BlockHashes) : Prop :=
  ∀ nBlockHeight : Int, 1 < nBlockHeight → nBlockHeight ≤ state.height + 1 →
    (state.getBlockHash nBlockHeight).2 = state.vChain[(nBlockHeight - 1).toNat]? ∧
      (state.getBlockHash nBlockHeight).2 =
        (BlockHashes.getBlockHash { vChain := state.vChain } nBlockHeight).2

/-- The remembered answers within the chain are right. -/
def Remembers (state : BlockHashes) : Prop :=
  ∀ (nBlockHeight : Int) (hash : Uint256), 1 < nBlockHeight → nBlockHeight ≤ state.height + 1 →
    state.mapCacheBlockHashes nBlockHeight = some hash →
      state.vChain[(nBlockHeight - 1).toNat]? = some hash

/-- A block is connected only where no other hash is remembered for its height. -/
def NotReplaced (state : BlockHashes) : BlockHashesStep → Prop
  | .connectTip hash => state.vChain ≠ [] → ∀ remembered,
      state.mapCacheBlockHashes (state.vChain.length + 1) = some remembered → remembered = hash
  | _ => True

/-! ## Answers -/

variable {state}

theorem walkBack_eq (ago : Nat) (n : Int) (hashes : List Uint256) :
    walkBack (n + ago) n hashes = if ago + 1 < hashes.length then hashes[ago]? else none := by
  induction ago generalizing n hashes with
  | zero =>
      match hashes with
      | [] => rfl
      | [_] => rfl
      | hash :: before :: rest => simp [walkBack]
  | succ ago ih =>
      match hashes with
      | [] => rfl
      | [_] => rfl
      | hash :: before :: rest =>
          have later : ¬ n ≥ n + ((ago + 1 : Nat) : Int) := by omega
          have same : n + ((ago + 1 : Nat) : Int) = n + 1 + ago := by omega
          rw [walkBack, if_neg later, same, ih, List.getElem?_cons_succ]
          simp only [List.length_cons, Nat.add_lt_add_iff_right]

/-- The walk finds the block below a height within the chain. -/
theorem walkBack_reverse {nBlockHeight : Int} (low : 1 < nBlockHeight)
    (high : nBlockHeight ≤ state.height + 1) :
    walkBack (state.height + 1 - nBlockHeight) 0 state.vChain.reverse =
      state.vChain[(nBlockHeight - 1).toNat]? := by
  unfold height at high ⊢
  obtain ⟨ago, same⟩ : ∃ ago : Nat, (state.vChain.length : Int) - 1 + 1 - nBlockHeight = ago :=
    ⟨_, (Int.toNat_of_nonneg (by omega)).symm⟩
  have walk := walkBack_eq ago 0 state.vChain.reverse
  rw [Int.zero_add, List.length_reverse, if_pos (by omega)] at walk
  rw [same, walk, List.getElem?_reverse (by omega)]
  congr 1
  omega

/-- What a call does within the chain. -/
theorem getBlockHash_eq {nBlockHeight : Int} (low : 1 < nBlockHeight)
    (high : nBlockHeight ≤ state.height + 1) :
    state.getBlockHash nBlockHeight =
      match state.mapCacheBlockHashes nBlockHeight with
      | some hash => (state, some hash)
      | none =>
          match state.vChain[(nBlockHeight - 1).toNat]? with
          | none => (state, none)
          | some hash => (state.remember nBlockHeight hash, some hash) := by
  have chain : state.vChain ≠ [] := by
    intro empty
    unfold height at high
    rw [empty, List.length_nil] at high
    omega
  unfold getBlockHash
  rw [if_neg chain]
  dsimp only
  rw [if_neg (by omega)]
  cases state.mapCacheBlockHashes nBlockHeight with
  | some hash => rfl
  | none =>
      dsimp only
      rw [if_neg (by omega), if_pos (by omega), walkBack_reverse low high]

theorem answer_eq {nBlockHeight : Int} (low : 1 < nBlockHeight)
    (high : nBlockHeight ≤ state.height + 1) :
    (state.getBlockHash nBlockHeight).2 =
      (state.mapCacheBlockHashes nBlockHeight).or state.vChain[(nBlockHeight - 1).toNat]? := by
  rw [getBlockHash_eq low high]
  cases state.mapCacheBlockHashes nBlockHeight with
  | some hash => rfl
  | none =>
      cases state.vChain[(nBlockHeight - 1).toNat]? with
      | none => rfl
      | some hash => rfl

theorem faithful_iff : Faithful state ↔ Remembers state := by
  constructor
  · intro faithful nBlockHeight hash low high remembered
    have answer := (faithful nBlockHeight low high).1
    rw [answer_eq low high, remembered, Option.some_or] at answer
    exact answer.symm
  · intro remembers nBlockHeight low high
    have below : (state.getBlockHash nBlockHeight).2 =
        state.vChain[(nBlockHeight - 1).toNat]? := by
      rw [answer_eq low high]
      cases remembered : state.mapCacheBlockHashes nBlockHeight with
      | none => rfl
      | some hash => rw [remembers nBlockHeight hash low high remembered, Option.some_or]
    refine ⟨below, ?_⟩
    rw [below, answer_eq low (by exact high), Option.none_or]

/-! ## Steps -/

/-- What a call may do to the state: remember a hash under the height that was asked for. The
height zero stands for that of the tip. -/
theorem getBlockHash_cases (state : BlockHashes) (nBlockHeight : Int) :
    (state.getBlockHash nBlockHeight).1 = state ∨ ∃ height hash,
      (state.getBlockHash nBlockHeight).1 = state.remember height hash ∧
        (1 < height → height ≤ state.height + 1 ∧
          state.vChain[(height - 1).toNat]? = some hash) := by
  unfold getBlockHash
  split
  · exact Or.inl rfl
  · generalize (if nBlockHeight = 0 then state.height else nBlockHeight) = asked
    dsimp only
    cases state.mapCacheBlockHashes asked with
    | some hash => exact Or.inl rfl
    | none =>
        dsimp only
        split
        · exact Or.inl rfl
        · rename_i within
          split
          · exact Or.inl rfl
          · rename_i hash found
            refine Or.inr ⟨asked, hash, rfl, fun low => ?_⟩
            have high : asked ≤ state.height + 1 := by omega
            rw [if_pos (by omega), walkBack_reverse low high] at found
            exact ⟨high, found⟩

theorem Remembers.ask (remembers : Remembers state) (nBlockHeight : Int) :
    Remembers (state.getBlockHash nBlockHeight).1 := by
  rcases state.getBlockHash_cases nBlockHeight with same | ⟨height, hash, stored, right⟩
  · rw [same]
    exact remembers
  · rw [stored]
    intro other answer low high present
    change Function.update state.mapCacheBlockHashes height (some hash) other = some answer
      at present
    by_cases asked : other = height
    · subst asked
      rw [Function.update_self] at present
      rw [← present]
      exact (right low).2
    · rw [Function.update_of_ne asked] at present
      exact remembers other answer low high present

theorem Remembers.disconnectTip (remembers : Remembers state) :
    Remembers (state.step .disconnectTip) := by
  intro nBlockHeight hash low high present
  unfold height at high
  dsimp only [step] at high present ⊢
  rw [List.length_dropLast] at high
  have below := remembers nBlockHeight hash low (by unfold height; omega) present
  rw [List.getElem?_dropLast, if_pos (by omega), below]

theorem Remembers.connectTip_iff (remembers : Remembers state) (hash : Uint256) :
    Remembers (state.step (.connectTip hash)) ↔ NotReplaced state (.connectTip hash) := by
  constructor
  · intro after chain remembered present
    have some_ := List.length_pos_iff.mpr chain
    have tip := after (state.vChain.length + 1) remembered (by omega)
      (by unfold height; dsimp only [step]; rw [List.length_append, List.length_singleton]; omega)
      present
    dsimp only [step] at tip
    rw [show ((state.vChain.length : Int) + 1 - 1).toNat = state.vChain.length by omega,
      List.getElem?_concat_length, Option.some.injEq] at tip
    exact tip.symm
  · intro notReplaced nBlockHeight answer low high present
    unfold height at high
    dsimp only [step] at high present ⊢
    rw [List.length_append, List.length_singleton] at high
    by_cases top : nBlockHeight = state.vChain.length + 1
    · subst top
      have chain : state.vChain ≠ [] := by
        rintro empty
        rw [empty, List.length_nil] at low
        omega
      rw [notReplaced chain answer present,
        show ((state.vChain.length : Int) + 1 - 1).toNat = state.vChain.length by omega,
        List.getElem?_concat_length]
    · have below := remembers nBlockHeight answer low (by unfold height; omega) present
      rw [List.getElem?_append_left (by omega), below]

theorem Remembers.step_iff (remembers : Remembers state) (action : BlockHashesStep) :
    Remembers (state.step action) ↔ NotReplaced state action := by
  cases action with
  | connectTip hash => exact remembers.connectTip_iff hash
  | disconnectTip => exact iff_true_intro remembers.disconnectTip
  | ask nBlockHeight => exact iff_true_intro (remembers.ask nBlockHeight)

/-! ## Whole runs -/

/-- **The answers follow the active chain in every state of a run** if and only if no block is
connected at a height for which the hash of another one is remembered. -/
theorem faithful_iff_notReplaced (actions : List BlockHashesStep) :
    (∀ state ∈ states step {} actions, Faithful state) ↔ AllSteps step NotReplaced {} actions := by
  have keeps : ∀ state action, True → True → Faithful state →
      (Faithful (step state action) ↔ NotReplaced state action) := by
    intro state action _ _ faithful
    rw [faithful_iff] at faithful ⊢
    exact faithful.step_iff action
  refine forall_states_iff (fun _ => True) Faithful (fun _ _ _ => trivial) keeps trivial ?_
    (fun _ _ => trivial)
  exact faithful_iff.mpr fun _ _ _ _ none => (nomatch none)

/-- A block is replaced after the hash below the next height was asked for. -/
theorem not_faithful_reorganised :
    ¬ ∀ state ∈ states step {} [.connectTip 1, .connectTip 2, .ask 2, .disconnectTip,
      .connectTip 3], Faithful state := by
  intro every
  have faithful := every _ (foldl_mem_states _ _)
  have answer := (faithful 2 (by decide) (by decide)).1
  revert answer
  decide

end BlockHashes

end GiantCore
