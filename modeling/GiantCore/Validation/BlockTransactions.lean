import GiantCore.Validation.CheckTransaction

/-! # Checking the transactions of a block

The rest of `CheckBlock`, after the payee check: every transaction is checked, no
zerocoin serial comes twice, the signature operations are limited and a stake is
not too small. Whether zerocoin is active goes by the time of the block. The rules
that go by a height take it from the tip, also where the block does not extend
the tip.
-/

namespace GiantCore

open CValidationState

/-- `MAX_BLOCK_SIZE_LEGACY`. -/
def maxBlockSizeLegacy : Nat := 1000000

section

variable (ctx : ValidationContext) (block : CBlock)

/-- The zerocoin rules on the block are the active ones. -/
def ValidationContext.fZerocoinActive : Bool :=
  decide (block.nTime > ctx.node.params.nZerocoinStartTime)

/-- The height the rules go by. -/
def ValidationContext.tipBlockHeight : Int := ctx.node.height + 1

/-- One input, with the serials of the block so far. -/
def checkBlockSerial (state : CValidationState) (vBlockSerials : List CBigNum) (txin : CTxIn) :
    Except CValidationState (List CBigNum) :=
  if !txin.isZerocoinSpend then .ok vBlockSerials
  else match txInToZerocoinSpend ctx.lib ctx.useModulusV1 txin with
    | none => .error state.throwing
    | some spend => do
        require (!vBlockSerials.contains spend.coinSerialNumber) (state.doS 100)
        return vBlockSerials ++ [spend.coinSerialNumber]

/-- The serials of a transaction come after those of the earlier ones. -/
def checkBlockSerials (state : CValidationState) (vBlockSerials : List CBigNum)
    (tx : CTransaction) : Except CValidationState (List CBigNum) :=
  if tx.hasZerocoinSpendInputs then tx.vin.foldlM (checkBlockSerial ctx state) vBlockSerials
  else .ok vBlockSerials

/-- One transaction of the block. -/
def checkBlockTransaction (state : CValidationState) (vBlockSerials : List CBigNum)
    (tx : CTransaction) : Except CValidationState (List CBigNum) := do
  checkTransaction ctx tx (ctx.fZerocoinActive block)
    (decide (ctx.tipBlockHeight ≥ ctx.node.params.nBlockEnforceSerialRange)) state
    (ctx.node.params.isBlockBetweenFakeSerialAttackRange ctx.tipBlockHeight)
  checkBlockSerials ctx state vBlockSerials tx

def checkBlockTransactions (state : CValidationState) : Except CValidationState (List CBigNum) :=
  block.vtx.foldlM (checkBlockTransaction ctx block state) []

def checkSigOps (state : CValidationState) : Except CValidationState Unit :=
  require (!decide ((block.vtx.map ctx.getLegacySigOpCount).sum >
      if ctx.fZerocoinActive block then maxBlockSizeCurrent / 50 else maxBlockSizeLegacy / 50))
    (state.doS 100 rejectInvalid "bad-blk-sigops" true)

/-- The output of the stake. -/
def CBlock.stakeOutput : Option CTxOut := block.vtx[1]?.bind fun tx => tx.vout[1]?

/-- The rule on the minimum stake. -/
def checkMinStake (state : CValidationState) : Except CValidationState Unit :=
  require (!(block.isProofOfStake && ctx.node.params.isMinStakeEnabled ctx.tipBlockHeight &&
    block.stakeOutput.any fun out => decide (out.nValue < ctx.node.params.nStakeMinAmount)))
    (state.doS 100)

/-- `CheckBlock`, or nothing where it reads a transaction that is not there. -/
def checkBlock (budget : CBudgetManager) (payments : CMasternodePayments)
    (fCheckMerkleRoot : Bool) (state : CValidationState) (budgetState : BudgetState) :
    Option (Except CValidationState BudgetState) :=
  (checkBlockPayee ctx.node block budget payments fCheckMerkleRoot state budgetState).map
    fun payee => do
      let budgetState ← payee
      let _ ← checkBlockTransactions ctx block state
      checkSigOps ctx block state
      checkMinStake ctx block state
      return budgetState

end

/-! ## Two tips -/

/-- The zerocoin spends of the block. -/
def CBlock.zerocoinSpends (block : CBlock) : List CTxIn :=
  (block.vtx.flatMap CTransaction.vin).filter CTxIn.isZerocoinSpend

/-- The serial of a spend, if the spend can be read. -/
def ValidationContext.spendSerial (ctx : ValidationContext) (txin : CTxIn) : Option CBigNum :=
  (ctx.lib.deserializeSpend (txin.scriptSig.drop bignumSize)).map
    Libzerocoin.SpendData.coinSerialNumber

section

variable {ctx : ValidationContext} {block : CBlock} {state : CValidationState}

end

/-- The node of the examples, whose blocks are as old as its clock and whose database
holds one accumulator. -/
def ValidationContext.mainContext (tipHeight : Int) : ValidationContext where
  node := NodeContext.mainNode tipHeight
  lib := Libzerocoin.plain
  blockTime _ := 1600000000
  readAccumulatorValue checksum := if checksum = 7 then some 961 else none
  readCoinMint _ := none
  isTransactionInChain _ := none
  isSerialInBlockchain _ := none
  hashOutputs _ := 0
  getTxSize tx := 100 + 40 * (tx.vin.length + tx.vout.length)
  getLegacySigOpCount tx := tx.vin.length

end GiantCore
