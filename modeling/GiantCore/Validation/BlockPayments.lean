import GiantCore.Budget.Budget
import GiantCore.Masternode.BlockPayee

/-! # The payments of a block

`IsBlockValueValid` and `IsBlockPayeeValid` of `masternode-payments.cpp`, which
combine the budget and the masternode payments. At a budget payment block the
first leaves the amount to the second, and the second looks for payees only.

`IsBlockPayeeValid` reads the transaction that carries the payments by its
index, without looking at the size of the block. A read past the end is `none`
here.
-/

namespace GiantCore

section

variable (node : NodeContext) (budget : CBudgetManager) (payments : CMasternodePayments)

/-- `IsBlockValueValid`. Asking for a budget payment block checks the masternodes. -/
def isBlockValueValid (block : CBlock) (nExpectedValue nMinted : CAmount)
    (mnodeman : CMasternodeMan) : CMasternodeMan × Bool :=
  if node.tip.isNone then (mnodeman, true)
  else
    let nHeight := node.blockHeight block
    if !node.isSynced then
      -- super blocks will always be on these blocks, max 100 per budgeting
      if nHeight.tmod node.params.nBudgetCycleBlocks < 100 then (mnodeman, true)
      else (mnodeman, nMinted ≤ nExpectedValue)
    else if !node.isSporkActive .enableSuperblocks then (mnodeman, nMinted ≤ nExpectedValue)
    else
      let (mnodeman, superblock) := budget.isBudgetPaymentBlock node nHeight mnodeman
      -- the value of the block is evaluated in CheckBlock
      if superblock then (mnodeman, true) else (mnodeman, nMinted ≤ nExpectedValue)

/-- The index of the transaction that pays the masternodes and the budget. -/
def payeeIndex (nBlockHeight : Int) : Nat :=
  if nBlockHeight > node.params.nLastPOWBlock then 1 else 0

/-- The last part of `IsBlockPayeeValid`, which looks for masternode payees. -/
def isMasternodePayeeValid (txNew : CTransaction) (nBlockHeight : Int) : Bool :=
  if payments.isTransactionValid node txNew.vout nBlockHeight then true
  else !node.isSporkActive .masternodePaymentEnforcement

/-- `IsBlockPayeeValid`, or nothing if the transaction it reads is not there. -/
def isBlockPayeeValid (block : CBlock) (nBlockHeight : Int) (state : BudgetState) :
    Option (BudgetState × Bool) :=
  if !node.isSynced then some (state, true)
  else do
    let txNew ← block.vtx[payeeIndex node nBlockHeight]?
    let otherwise := isMasternodePayeeValid node payments txNew nBlockHeight
    if node.isSporkActive .enableSuperblocks then
      let (mnodeman, superblock) := budget.isBudgetPaymentBlock node nBlockHeight state.mnodeman
      let state := { state with mnodeman }
      if superblock then
        let (state, status) := budget.isTransactionValid node txNew.vout nBlockHeight state
        match status with
        | .valid => return (state, true)
        | .inValid =>
            if node.isSporkActive .masternodeBudgetEnforcement then return (state, false)
            else return (state, otherwise)
        | _ => return (state, otherwise)
      else return (state, otherwise)
    else return (state, otherwise)

end

/-! ## Repeated validation -/

namespace CBudgetManager

variable (node : NodeContext) (budget : CBudgetManager)

@[simp] theorem fst_isBudgetPaymentBlock (nBlockHeight : Int) (mnodeman : CMasternodeMan) :
    (budget.isBudgetPaymentBlock node nBlockHeight mnodeman).1 = mnodeman.checkAll node := by
  simp only [isBudgetPaymentBlock, CMasternodeMan.countEnabled_eq]

end CBudgetManager

section

variable (node : NodeContext) (budget : CBudgetManager) (payments : CMasternodePayments)

/-- The budget enforcement refuses the block, whatever it pays. -/
def BudgetRefuses (nBlockHeight : Int) : Prop :=
  (∃ finalized ∈ budget.paying nBlockHeight, 0 < finalized.getVoteCount) ∧
    budget.OutVoted nBlockHeight ∧
    node.isSporkActive .enableSuperblocks = true ∧
    node.isSporkActive .masternodeBudgetEnforcement = true

instance (nBlockHeight : Int) : Decidable (BudgetRefuses node budget nBlockHeight) :=
  inferInstanceAs (Decidable ((∃ finalized ∈ budget.paying nBlockHeight,
    0 < finalized.getVoteCount) ∧ budget.OutVoted nBlockHeight ∧
    node.isSporkActive .enableSuperblocks = true ∧
    node.isSporkActive .masternodeBudgetEnforcement = true))

/-- The state after `IsBlockPayeeValid` has read the transaction. -/
def checkedBudgetState (state : BudgetState) : BudgetState :=
  if node.isSporkActive .enableSuperblocks then
    { state with mnodeman := state.mnodeman.checkAll node }
  else state

/-- **The verdict on the payees of a block.** A synced node lets the masternode
payments decide, unless the budget enforcement refuses. The history of
payments plays no part. -/
theorem isBlockPayeeValid_eq (block : CBlock) (nBlockHeight : Int) (state : BudgetState) :
    isBlockPayeeValid node budget payments block nBlockHeight state =
      if !node.isSynced then some (state, true)
      else (block.vtx[payeeIndex node nBlockHeight]?).map fun txNew =>
        (checkedBudgetState node state,
          !decide (BudgetRefuses node budget nBlockHeight) &&
            isMasternodePayeeValid node payments txNew nBlockHeight) := by
  have superblock := budget.isBudgetPaymentBlock_iff node nBlockHeight state.mnodeman
  unfold isBlockPayeeValid
  split
  · rfl
  · cases block.vtx[payeeIndex node nBlockHeight]? with
    | none => rfl
    | some txNew =>
        by_cases enabled : node.isSporkActive .enableSuperblocks = true
        · by_cases paid : (budget.isBudgetPaymentBlock node nBlockHeight state.mnodeman).2 = true
          · by_cases outVoted : budget.OutVoted nBlockHeight
            · by_cases enforced : node.isSporkActive .masternodeBudgetEnforcement = true
              · simp [enabled, paid, outVoted, enforced, CBudgetManager.isTransactionValid_eq,
                  BudgetRefuses, superblock.mp paid, checkedBudgetState]
              · simp [enabled, paid, outVoted, enforced, CBudgetManager.isTransactionValid_eq,
                  BudgetRefuses, checkedBudgetState]
            · simp [enabled, paid, outVoted, CBudgetManager.isTransactionValid_eq,
                BudgetRefuses, checkedBudgetState]
          · have unpaid := superblock.not.mp paid
            simp [enabled, paid, unpaid, BudgetRefuses, checkedBudgetState]
        · simp [enabled, BudgetRefuses, checkedBudgetState]

/-- **Repeated validation.** A second validation of the same transaction or block,
on the state that the first one left, comes to the same result. -/
theorem validation_repeatable (vout : List CTxOut) (block : CBlock) (nBlockHeight : Int)
    (state : BudgetState) :
    (budget.isTransactionValid node vout nBlockHeight
        (budget.isTransactionValid node vout nBlockHeight state).1).2 =
      (budget.isTransactionValid node vout nBlockHeight state).2 ∧
    ((isBlockPayeeValid node budget payments block nBlockHeight state).bind fun after =>
        (isBlockPayeeValid node budget payments block nBlockHeight after.1).map Prod.snd) =
      (isBlockPayeeValid node budget payments block nBlockHeight state).map Prod.snd := by
  constructor
  · simp only [CBudgetManager.isTransactionValid_eq]
  · simp only [isBlockPayeeValid_eq]
    split
    · rfl
    · cases block.vtx[payeeIndex node nBlockHeight]? with
      | none => rfl
      | some txNew => rfl

end

end GiantCore
