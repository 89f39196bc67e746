import GiantCore.Validation.ChainRun

/-! # Calls of `ConnectBlock` that should change nothing

A call that refuses the block, and a dry run (`fJustCheck`), are meant to store
nothing, to disk or to memory. The supply is booked in the block index before the
value of the block, its checkpoint and the result of the script threads are
looked at, so a call that comes so far leaves its numbers behind. They were there
before only if the index already held them.
-/

namespace GiantCore

open CValidationState

namespace ChainState

variable {ctx : ChainContext}

/-! ## What a call leaves behind -/

section

variable (ctx : ChainContext) (state : ChainState) (block : CBlock) (vstate : CValidationState)
  (ref : IndexRef) (view : CoinsView) (fJustCheck fAlreadyChecked : Bool)

/-- The call comes to the bookkeeping: `CheckBlock`, the proof period, the test for
overwritten transactions and all tests of transactions are passed, and the block
is not the first one. -/
structure Reaches (budgetState : BudgetState) (pindex : ChainIndex) (effects : BlockEffects) :
    Prop where
  checked : state.checkBlockAgain ctx block vstate fJustCheck fAlreadyChecked = .ok budgetState
  index : state.index ref = some pindex
  bestBlock : checkBestBlock pindex view = .ok ()
  later : block.hash ≠ ctx.hashGenesisBlock
  transactions : state.connectTransactions ctx block vstate ref pindex view = .ok effects

end

section

variable {state : ChainState} {block : CBlock} {vstate : CValidationState}
  {ref : IndexRef} {view : CoinsView} {fJustCheck fAlreadyChecked : Bool}
  {budgetState : BudgetState} {pindex : ChainIndex} {effects : BlockEffects}

theorem Reaches.unique {budgetState' : BudgetState} {pindex' : ChainIndex}
    {effects' : BlockEffects}
    (first : Reaches ctx state block vstate ref view fJustCheck fAlreadyChecked budgetState pindex
      effects)
    (second : Reaches ctx state block vstate ref view fJustCheck fAlreadyChecked budgetState'
      pindex' effects') :
    budgetState' = budgetState ∧ pindex' = pindex ∧ effects' = effects := by
  cases first.checked.symm.trans second.checked
  cases first.index.symm.trans second.index
  cases first.transactions.symm.trans second.transactions
  exact ⟨rfl, rfl, rfl⟩

end

end ChainState

open ChainState

end GiantCore
