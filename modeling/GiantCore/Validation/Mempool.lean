import GiantCore.Validation.BlockTransactions
import GiantCore.Validation.Headers

/-! # Accepting transactions to the memory pool

`AcceptToMemoryPool` of `main.cpp`. Whether zerocoin is active goes by the height
of the chain here, and by the time of the block in `CheckBlock`. On the main network
the start time is too large for its field and is stored as a time long before
the first block, so that in blocks zerocoin has always been active. The memory pool
does not refuse zerocoins while they are inactive either: it leaves out the rules
on them.
-/

namespace GiantCore

open CValidationState

/-- `REJECT_DUPLICATE`. -/
def rejectDuplicate : UInt8 := 0x12

/-- `REJECT_NONSTANDARD`. -/
def rejectNonstandard : UInt8 := 0x40

/-- `REJECT_INSUFFICIENTFEE`. -/
def rejectInsufficientFee : UInt8 := 0x42

/-- The transactions of the pool, and the one that spends an outpoint. -/
structure CTxMemPool where
  mapTx : Uint256 → Option CTransaction
  mapNextTx : COutPoint → Option Uint256

/-- What the memory pool reads besides the pool. Coins are those of the chain and
the pool together. -/
structure MempoolContext where
  validation : ValidationContext
  fRequireStandard : Bool
  /-- `CheckFinalTx`. -/
  checkFinalTx : CTransaction → Bool
  /-- Why a transaction is not standard. -/
  nonstandardReason : CTransaction → Option String
  haveCoins : Uint256 → Bool
  haveInputs : CTransaction → Bool
  getValueIn : CTransaction → CAmount
  /-- `ValidOutPoint` at a height. -/
  validOutPoint : COutPoint → Int → Bool
  areInputsStandard : CTransaction → Bool
  getP2SHSigOpCount : CTransaction → Nat
  /-- `mapObfuscationBroadcastTxes` has the transaction. -/
  isObfuscationBroadcast : Uint256 → Bool
  getMinRelayFee : CTransaction → CAmount
  /-- `Zerocoin_MintFee`. -/
  zerocoinMintFee : CAmount
  /-- The fee is too small for the priority of the transaction. -/
  lacksPriority : CTransaction → CAmount → Bool
  /-- The rate limiter for free transactions refuses. -/
  isRateLimited : CTransaction → CAmount → Bool
  isInsaneFee : CTransaction → CAmount → Bool
  /-- `CheckInputs` with the standard and with the mandatory flags. -/
  checkInputs : CTransaction → Bool

section

variable (ctx : MempoolContext) (tx : CTransaction) (state : CValidationState)

/-- The zerocoin rules of the memory pool are the active ones. -/
def MempoolContext.fZerocoinActive : Bool :=
  decide (ctx.validation.node.height ≥ ctx.validation.node.params.nZerocoinStartHeight)

/-- The rules that do not read the pool. -/
def checkLooseTransaction : Except CValidationState Unit := do
  require (!(decide (ctx.validation.node.adjustedTime >
      ctx.validation.node.getSporkValue .zerocoinMaintenanceMode) && tx.containsZerocoins))
    (state.doS 10 rejectInvalid "bad-tx")
  (checkTransaction ctx.validation tx ctx.fZerocoinActive true state
    (ctx.validation.node.params.isBlockBetweenFakeSerialAttackRange
      ctx.validation.node.height)).mapError
        (after fun state => state.doS 100 rejectInvalid "bad-tx")
  require (!tx.isCoinBase) (state.doS 100 rejectInvalid "coinbase")
  require (!tx.isCoinStake) (state.doS 100 rejectInvalid "coinstake")
  require (ctx.checkFinalTx tx) (state.doS 0 rejectNonstandard "non-final")
  if ctx.fRequireStandard then
    (ctx.nonstandardReason tx).elim (.ok ()) fun reason =>
      .error (state.doS 0 rejectNonstandard reason)
  else .ok ()

/-- The rules on conflicts with the pool and with transaction locks. -/
def checkConflicts (pool : CTxMemPool) : Except CValidationState Unit := do
  require (pool.mapTx tx.hash).isNone state
  require (tx.vin.all fun txin =>
      (ctx.validation.node.mapLockedInputs txin.prevout).all (· == tx.hash))
    (state.doS 0 rejectInvalid "tx-lock-conflict")
  require (tx.hasZerocoinSpendInputs || tx.vin.all fun txin =>
    (pool.mapNextTx txin.prevout).isNone) state

/-- The rules on the inputs of a zerocoin spend. -/
def checkSpendInputs : Except CValidationState Unit := do
  require (ctx.validation.isTransactionInChain tx.hash).isNone
    (state.invalid rejectDuplicate "bad-txns-inputs-spent")
  tx.vin.forM fun txin =>
    if !txin.isZerocoinSpend then .ok ()
    else match txInToZerocoinSpend ctx.validation.lib ctx.validation.useModulusV1 txin with
      | none => .error state.throwing
      | some spend =>
          require (contextualCheckZerocoinSpend ctx.validation tx spend ctx.validation.node.height)
            (state.invalid rejectInvalid "bad-txns-invalid-zgic")

/-- The rules on the inputs of any other transaction, and on its mints. -/
def checkCoinInputs : Except CValidationState Unit := do
  require (!ctx.haveCoins tx.hash) state
  tx.vin.forM fun txin => do
    require (ctx.haveCoins txin.prevout.hash) state
    require (ctx.validOutPoint txin.prevout ctx.validation.node.height)
      (state.invalid rejectInvalid "bad-txns-invalid-inputs")
  tx.vout.forM fun out =>
    if !out.isZerocoinMint then .ok ()
    else match txOutToPublicCoin out with
      | none => .error ((state.doS 100).invalid 0 "")
      | some coin =>
          require (contextualCheckZerocoinMint ctx.validation coin ctx.validation.node.height)
            (state.invalid 0 "")
  require (ctx.haveInputs tx) (state.invalid rejectDuplicate "bad-txns-inputs-spent")

/-- `GetZerocoinSpent`. -/
def CTransaction.getZerocoinSpent : CAmount :=
  ((tx.vin.filter CTxIn.isZerocoinSpend).map fun txin => txin.nSequence.toNat * COIN).sum

/-- `GetZerocoinMintCount`. -/
def CTransaction.getZerocoinMintCount : Nat := (tx.vout.filter CTxOut.isZerocoinMint).length

/-- The rules on the fee. -/
def checkFees (fLimitFree ignoreFees : Bool) (nFees : CAmount) : Except CValidationState Unit :=
  if ctx.isObfuscationBroadcast tx.hash || ignoreFees then .ok ()
  else do
    require (!(fLimitFree && decide (nFees < ctx.getMinRelayFee tx) && !tx.hasZerocoinSpendInputs))
      (state.doS 0 rejectInsufficientFee "insufficient fee")
    if tx.hasZerocoinMintOutputs then
      require (!decide (nFees < ctx.zerocoinMintFee * tx.getZerocoinMintCount))
        (state.doS 0 rejectInsufficientFee "insufficient fee for zerocoinmint")
    else
      require (!(!tx.hasZerocoinSpendInputs && ctx.lacksPriority tx nFees))
        (state.doS 0 rejectInsufficientFee "insufficient priority")
    require (!(fLimitFree && ctx.isRateLimited tx nFees && !tx.hasZerocoinSpendInputs))
      (state.doS 0 rejectInsufficientFee "rate limited free transaction")

/-- The rules on the inputs, on the signature operations, on the fee and on the
scripts. -/
def checkPoolInputs (fLimitFree fRejectInsaneFee ignoreFees : Bool) :
    Except CValidationState Unit := do
  if tx.hasZerocoinSpendInputs then checkSpendInputs ctx tx state
  else checkCoinInputs ctx tx state
  require (!ctx.fRequireStandard || ctx.areInputsStandard tx) state
  require (tx.hasZerocoinSpendInputs || !decide (ctx.validation.getLegacySigOpCount tx +
      ctx.getP2SHSigOpCount tx > maxBlockSizeCurrent / 50 / 5))
    (state.doS 0 rejectNonstandard "bad-txns-too-many-sigops")
  let nValueIn := if tx.hasZerocoinSpendInputs then tx.getZerocoinSpent else ctx.getValueIn tx
  match tx.getValueOut with
  | none => .error state.throwing
  | some nValueOut => do
      let nFees := nValueIn - nValueOut
      checkFees ctx tx state fLimitFree ignoreFees nFees
      require (!(fRejectInsaneFee && ctx.isInsaneFee tx nFees)) state
      require (ctx.checkInputs tx) state

/-- `addUnchecked`. -/
def CTxMemPool.addUnchecked (pool : CTxMemPool) : CTxMemPool where
  mapTx hash := if hash = tx.hash then some tx else pool.mapTx hash
  mapNextTx out :=
    if !tx.hasZerocoinSpendInputs && tx.vin.any fun txin => txin.prevout == out then some tx.hash
    else pool.mapNextTx out

/-- `AcceptToMemoryPool`. -/
def acceptToMemoryPool (pool : CTxMemPool) (fLimitFree fRejectInsaneFee ignoreFees : Bool) :
    Except CValidationState CTxMemPool := do
  checkLooseTransaction ctx tx state
  checkConflicts ctx tx state pool
  checkPoolInputs ctx tx state fLimitFree fRejectInsaneFee ignoreFees
  return pool.addUnchecked tx

end

/-! ## The two tests of activity -/

/-- A zerocoin transaction is refused while zerocoin is inactive: by the memory
pool, and by `CheckBlock` in every block that may follow the tip. -/
structure RefusedEverywhere (ctx : MempoolContext) (budget : CBudgetManager)
    (payments : CMasternodePayments) (tip : IndexNode) (tx : CTransaction) : Prop where
  inPool : ∀ state pool fLimitFree fRejectInsaneFee ignoreFees after,
    acceptToMemoryPool ctx tx state pool fLimitFree fRejectInsaneFee ignoreFees ≠ .ok after
  inBlock : ∀ (headers : HeaderContext) tree block state,
    headers.node.params = ctx.validation.node.params →
    checkHeaderAfter headers tree block state tip = .ok () → tx ∈ block.vtx →
    ∀ fCheckMerkleRoot state budgetState after,
      checkBlock ctx.validation block budget payments fCheckMerkleRoot state budgetState ≠
        some (.ok after)

/-- The test of `CheckBlock` for a block of the chain. -/
def HeaderIndex.activeByTime (header : HeaderIndex) (params : CChainParams) : Bool :=
  decide (header.nTime > params.nZerocoinStartTime)

/-- The test of the memory pool on the chain below a block. -/
def HeaderIndex.activeByHeight (header : HeaderIndex) (params : CChainParams) : Bool :=
  decide (header.nHeight - 1 ≥ params.nZerocoinStartHeight)

/-- The start time as it is stored is before the first block. -/
theorem nZerocoinStartTime_lt_nGenesisTime :
    CChainParams.main.nZerocoinStartTime < CChainParams.main.nGenesisTime := by
  decide

/-- On the main network every block of a chain is past the start time. -/
theorem activeByTime_of_chain {tip : IndexNode} (chain : HeaderChain CChainParams.main tip) :
    ∀ header ∈ tip.branch, header.activeByTime CChainParams.main = true := by
  intro header member
  have late := chain.genesisTime_le (by decide) header member
  exact decide_eq_true (Int.lt_of_lt_of_le nZerocoinStartTime_lt_nGenesisTime late)

/-- So is every block that may follow. -/
theorem fZerocoinActive_of_accepted {ctx : ValidationContext} {headers : HeaderContext}
    {tree : BlockTree} {block : CBlock} {state : CValidationState} {tip : IndexNode}
    (main : ctx.node.params = CChainParams.main) (same : headers.node.params = CChainParams.main)
    (chain : HeaderChain CChainParams.main tip)
    (accepted : checkHeaderAfter headers tree block state tip = .ok ()) :
    ctx.fZerocoinActive block = true := by
  have grown := HeaderChain.extend headers tree block state chain same accepted
  have active := activeByTime_of_chain grown _ List.mem_cons_self
  rw [ValidationContext.fZerocoinActive, main]
  exact active

/-- Below the start height the test of the memory pool fails for every block of
a chain. -/
theorem activeByHeight_of_below {params : CChainParams} {tip : IndexNode}
    (chain : HeaderChain params tip)
    (below : tip.header.nHeight + 1 < params.nZerocoinStartHeight) :
    ∀ header ∈ tip.branch, header.activeByHeight params = false := by
  intro header member
  have low := chain.nHeight_le header member
  exact decide_eq_false (by omega)

/-- **The tests never agree.** On the main network, on every chain whose next height
is below the start height, the time test lets zerocoins into every block of the
chain and into every block that may follow, while the height test of the memory
pool says that zerocoin is inactive. -/
theorem tests_disagree (ctx : MempoolContext) (budget : CBudgetManager)
    (payments : CMasternodePayments) (tip : IndexNode) (tx : CTransaction)
    (main : ctx.validation.node.params = CChainParams.main)
    (chain : HeaderChain CChainParams.main tip)
    (atTip : ctx.validation.node.height = tip.header.nHeight)
    (below : tip.header.nHeight + 1 < CChainParams.main.nZerocoinStartHeight) :
    (∀ header ∈ tip.branch,
      header.activeByTime CChainParams.main ≠ header.activeByHeight CChainParams.main) ∧
    (∀ (headers : HeaderContext) tree block state, headers.node.params = CChainParams.main →
      checkHeaderAfter headers tree block state tip = .ok () →
      ctx.validation.fZerocoinActive block ≠ ctx.fZerocoinActive) ∧
    ¬ (RefusedEverywhere ctx budget payments tip tx ∧
      ∀ header ∈ tip.branch,
        header.activeByTime CChainParams.main = header.activeByHeight CChainParams.main) := by
  have disagree : ∀ header ∈ tip.branch,
      header.activeByTime CChainParams.main ≠ header.activeByHeight CChainParams.main := by
    intro header member
    rw [activeByTime_of_chain chain header member,
      activeByHeight_of_below chain below header member]
    decide
  have inactive : ctx.fZerocoinActive = false := by
    rw [MempoolContext.fZerocoinActive, main, atTip]
    exact decide_eq_false (by omega)
  refine ⟨disagree, ?_, ?_⟩
  · intro headers tree block state same accepted
    rw [fZerocoinActive_of_accepted main same chain accepted, inactive]
    decide
  · intro ⟨_, agree⟩
    exact disagree tip.header List.mem_cons_self (agree tip.header List.mem_cons_self)

/-- The memory pool of the examples, where all inputs are there. -/
def MempoolContext.mainPool (tipHeight : Int) : MempoolContext where
  validation := ValidationContext.mainContext tipHeight
  fRequireStandard := true
  checkFinalTx _ := true
  nonstandardReason _ := none
  haveCoins hash := hash == 400
  haveInputs _ := true
  getValueIn _ := 2 * COIN
  validOutPoint _ _ := true
  areInputsStandard _ := true
  getP2SHSigOpCount _ := 0
  isObfuscationBroadcast _ := false
  getMinRelayFee _ := 10000
  zerocoinMintFee := 1000000
  lacksPriority _ _ := false
  isRateLimited _ _ := false
  isInsaneFee _ _ := false
  checkInputs _ := true

/-- A mint of one coin. -/
def mintTransaction : CTransaction where
  hash := 502
  vin := [{ prevout := ⟨400, 0⟩ }]
  vout := [{ nValue := 1 * COIN, scriptPubKey := [0xc1, 0, 0, 0, 0, 1, 3] }]

theorem tests_disagree_genesis :
    genesisNode.header.activeByTime CChainParams.main ≠
      genesisNode.header.activeByHeight CChainParams.main :=
  (tests_disagree (MempoolContext.mainPool 0) {} {} genesisNode mintTransaction rfl
    genesisNode_chain rfl (by decide)).1 genesisNode.header List.mem_cons_self

/-- The block after the first one holds a mint, and `CheckBlock` accepts it. -/
theorem not_refusedEverywhere_mint :
    ¬ ∀ (ctx : MempoolContext) (budget : CBudgetManager) (payments : CMasternodePayments)
      (tip : IndexNode) (tx : CTransaction), ctx.validation.node.params = CChainParams.main →
      HeaderChain CChainParams.main tip → ctx.validation.node.height = tip.header.nHeight →
      tip.header.nHeight + 1 < CChainParams.main.nZerocoinStartHeight →
      tx.containsZerocoins = true → RefusedEverywhere ctx budget payments tip tx := by
  intro refused
  have everywhere := refused (MempoolContext.mainPool 0) {} {} genesisNode mintTransaction rfl
    genesisNode_chain rfl (by decide) (by decide)
  have follows : checkHeaderAfter (HeaderContext.mainHeaders 0) (BlockTree.single genesisNode)
      (blockOn 0 [plainCoinBase 0, mintTransaction]) {} genesisNode = .ok () := by decide
  have accepted : checkBlock (ValidationContext.mainContext 0)
      (blockOn 0 [plainCoinBase 0, mintTransaction]) {} {} true {} { mnodeman := ⟨[]⟩ } =
        some (.ok { mnodeman := ⟨[]⟩ }) := by rfl
  exact everywhere.inBlock (HeaderContext.mainHeaders 0) (BlockTree.single genesisNode) _ {} rfl
    follows (by decide) true {} _ _ accepted

/-- The memory pool takes the mint as well. -/
example : (acceptToMemoryPool (MempoolContext.mainPool 0) mintTransaction {}
    ⟨fun _ => none, fun _ => none⟩ true true false).toBool = true := by
  decide

end GiantCore
