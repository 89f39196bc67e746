import GiantCore.Foundation.Checks
import GiantCore.Validation.CheckBlock
import GiantCore.Zerocoin.Coins

/-! # Checking a transaction

`CheckTransaction` of `main.cpp` with `CheckZerocoinMint` and
`CheckZerocoinSpend`. The rules on zerocoins are applied only if the caller says
that zerocoin is active.

The proofs of a spend are verified only while the tip is not a day old, and under
accumulator parameters that go by the height of the tip. All other rules are the
same under every tip.
-/

namespace GiantCore

open CValidationState

/-- What the rules on transactions read besides the node. -/
structure ValidationContext where
  node : NodeContext
  lib : Libzerocoin
  /-- `GetBlockTime` of the block index of a hash. -/
  blockTime : Uint256 → Int
  /-- `zerocoinDB->ReadAccumulatorValue`. -/
  readAccumulatorValue : UInt32 → Option CBigNum
  /-- `zerocoinDB->ReadCoinMint`. -/
  readCoinMint : CBigNum → Option Uint256
  /-- `IsTransactionInChain`, with the height. -/
  isTransactionInChain : Uint256 → Option Int
  /-- `IsSerialInBlockchain`, with the height. -/
  isSerialInBlockchain : CBigNum → Option Int
  /-- The hash of a transaction that has the outputs and nothing else. -/
  hashOutputs : List CTxOut → Uint256
  /-- `GetSerializeSize` on the network. -/
  getTxSize : CTransaction → Nat
  getLegacySigOpCount : CTransaction → Nat

namespace CChainParams

variable (params : CChainParams)

/-- `MoneyRange`. -/
def moneyRange (nValueOut : CAmount) : Bool :=
  decide (0 ≤ nValueOut) && decide (nValueOut ≤ params.nMaxMoneyOut)

def isBlockBetweenFakeSerialAttackRange (nHeight : Int) : Bool :=
  if params.networkID ≠ .main then false else decide (nHeight ≤ params.nFakeSerialBlockheightEnd)

def isMinStakeEnabled (height : Int) : Bool := decide (height ≥ params.nMinStakeActivationHeight)

end CChainParams

section

variable (ctx : ValidationContext)

/-- `CheckZerocoinMint`. -/
def checkZerocoinMint (txout : CTxOut) (state : CValidationState) :
    Except CValidationState Unit :=
  match txOutToPublicCoin txout with
  | none => .error ((state.doS 100).doS 100)
  | some pubCoin => require (pubCoin.validate ctx.lib) (state.doS 100)

/-- `ContextualCheckZerocoinMint`: no public coin is minted twice. -/
def contextualCheckZerocoinMint (coin : PublicCoin) (nHeight : Int) : Bool :=
  !(decide (nHeight ≥ ctx.node.params.nBlockZerocoinV2) &&
    ctx.node.params.networkID != .testnet &&
    (ctx.readCoinMint coin.value).any fun txid => (ctx.isTransactionInChain txid).isSome)

/-- `PUBKEY_VERSION`. -/
def pubkeyVersion : UInt8 := 2

/-- The signature and the type of a spend, which are checked from the second
version on. -/
def checkSpendSignature (tx : CTransaction) (spend : Libzerocoin.CoinSpend) (nHeight : Int) :
    Bool :=
  if nHeight ≥ ctx.node.params.nBlockZerocoinV2 then
    (match ctx.lib.hasValidSignature spend with
      | some valid => valid
      | none => ctx.node.params.isBlockBetweenFakeSerialAttackRange nHeight) &&
      spend.isStake == tx.isCoinStake
  else true

/-- `ContextualCheckZerocoinSpendNoSerialCheck`. -/
def contextualCheckZerocoinSpendNoSerialCheck (tx : CTransaction) (spend : Libzerocoin.CoinSpend)
    (nHeight : Int) : Bool :=
  checkSpendSignature ctx tx spend nHeight &&
    (ctx.lib.isValidSerial (decide (spend.version < pubkeyVersion)) spend.coinSerialNumber ||
      ctx.node.params.isBlockBetweenFakeSerialAttackRange nHeight)

/-- `ContextualCheckZerocoinSpend`. -/
def contextualCheckZerocoinSpend (tx : CTransaction) (spend : Libzerocoin.CoinSpend)
    (nHeight : Int) : Bool :=
  contextualCheckZerocoinSpendNoSerialCheck ctx tx spend nHeight &&
    (ctx.isSerialInBlockchain spend.coinSerialNumber).isNone

/-- The accumulator parameters that go with the tip. -/
def ValidationContext.useModulusV1 : Bool :=
  decide (ctx.node.height < ctx.node.params.nBlockZerocoinV2)

/-- The proofs of a spend are verified unless the node is catching up or its tip is
a day old. -/
def ValidationContext.fVerifySignature : Bool :=
  !ctx.node.isInitialBlockDownload &&
    ctx.node.tip.any fun tip => decide (ctx.node.time - ctx.blockTime tip.hash < 60 * 60 * 24)

/-- The accumulator of a spend is known, and the spend verifies against it. -/
def checkAccumulated (fFakeSerialAttack : Bool) (newSpend : Libzerocoin.CoinSpend)
    (state : CValidationState) : Except CValidationState Unit :=
  match ctx.readAccumulatorValue newSpend.accumulatorChecksum with
  | none => .error (state.doS 100)
  | some bnAccumulatorValue =>
      require (ctx.lib.verifySpend newSpend
        (.ofValue ctx.lib ctx.useModulusV1 newSpend.denomination bnAccumulatorValue)
        (!fFakeSerialAttack)) (state.doS 100)

/-- The rules on one spend, with the serials of the transaction so far and the
amount they redeem. A spend that cannot be deserialized throws. -/
def checkSpend (fVerifySignature fFakeSerialAttack : Bool) (hashTxOut : Uint256)
    (state : CValidationState) (found : List CBigNum × CAmount) (txin : CTxIn) :
    Except CValidationState (List CBigNum × CAmount) :=
  if !txin.isZerocoinSpend then .ok found
  else match txInToZerocoinSpend ctx.lib ctx.useModulusV1 txin with
    | none => .error state.throwing
    | some newSpend => do
        require (newSpend.denomination != .error) (state.doS 100)
        require (newSpend.denomination.toInt == txin.nSequence.toNat) (state.doS 100)
        require (newSpend.txOutHash == hashTxOut) (state.doS 100)
        if fVerifySignature then checkAccumulated ctx fFakeSerialAttack newSpend state else .ok ()
        require (!found.1.contains newSpend.coinSerialNumber) (state.doS 100)
        return (newSpend.coinSerialNumber :: found.1, found.2 + newSpend.denomination.toAmount)

/-- At most two outputs that are no mints, for redemption and change. -/
def checkSpendOutputs (tx : CTransaction) (state : CValidationState) :
    Except CValidationState Unit :=
  require (!(decide (tx.vout.length > 2) &&
    decide ((tx.vout.filter fun out => !out.isZerocoinMint).length > 2) && !tx.isCoinStake))
    (state.doS 100)

/-- A spend redeems what it pays, unless it is a stake. -/
def checkRedeemed (tx : CTransaction) (nTotalRedeemed : CAmount) (state : CValidationState) :
    Except CValidationState Unit :=
  if tx.isCoinStake then .ok ()
  else match tx.getValueOut with
    | none => .error state.throwing
    | some nValueOut => require (!decide (nTotalRedeemed < nValueOut)) (state.doS 100)

/-- `CheckZerocoinSpend`. -/
def checkZerocoinSpend (tx : CTransaction) (fVerifySignature : Bool) (state : CValidationState)
    (fFakeSerialAttack : Bool) : Except CValidationState Unit := do
  checkSpendOutputs tx state
  let (serials, nTotalRedeemed) ← tx.vin.foldlM
    (checkSpend ctx fVerifySignature fFakeSerialAttack (ctx.hashOutputs tx.vout) state) ([], 0)
  checkRedeemed tx nTotalRedeemed state
  -- `fValidated`: there was a spend
  require (!serials.isEmpty) state

/-- The rules on one output, with the total so far. -/
def checkTxOut (tx : CTransaction) (fZerocoinActive : Bool) (state : CValidationState)
    (nValueOut : CAmount) (txout : CTxOut) : Except CValidationState CAmount := do
  require (!(txout.isEmpty && !tx.isCoinBase && !tx.isCoinStake)) (state.doS 100)
  require (!decide (txout.nValue < 0)) (state.doS 100 rejectInvalid "bad-txns-vout-negative")
  require (!decide (txout.nValue > ctx.node.params.nMaxMoneyOut))
    (state.doS 100 rejectInvalid "bad-txns-vout-toolarge")
  require (ctx.node.params.moneyRange (nValueOut + txout.nValue))
    (state.doS 100 rejectInvalid "bad-txns-txouttotal-toolarge")
  if fZerocoinActive && txout.isZerocoinMint then
    (checkZerocoinMint ctx txout state).mapError (after fun state => state.doS 100)
  else .ok ()
  return nValueOut + txout.nValue

/-- The rules on one input, with the outpoints and the number of spends so far. -/
def checkTxIn (state : CValidationState) (found : List COutPoint × Nat) (txin : CTxIn) :
    Except CValidationState (List COutPoint × Nat) := do
  require (!found.1.contains txin.prevout)
    (state.doS 100 rejectInvalid "bad-txns-inputs-duplicate")
  return if !txin.isZerocoinSpend then (txin.prevout :: found.1, found.2)
    else (found.1, found.2 + 1)

/-- The rules on zerocoins that are applied when zerocoin is active. -/
def checkActiveZerocoins (tx : CTransaction) (nZCSpendCount : Nat) (state : CValidationState)
    (fFakeSerialAttack : Bool) : Except CValidationState Unit := do
  require (!decide (nZCSpendCount > ctx.node.params.nMaxZerocoinSpendsPerTransaction))
    (state.doS 100)
  if tx.hasZerocoinSpendInputs then do
    require (tx.vin.all CTxIn.isZerocoinSpend) (state.doS 100)
    (checkZerocoinSpend ctx tx ctx.fVerifySignature state fFakeSerialAttack).mapError
      (after fun state => state.doS 100)
  else .ok ()

/-- The rules on the inputs of a coinbase, of a spend and of any other transaction. -/
def checkInputShape (tx : CTransaction) (fZerocoinActive : Bool) (state : CValidationState) :
    Except CValidationState Unit :=
  if tx.isCoinBase then
    require (tx.vin.head?.all fun txin =>
      !(decide (txin.scriptSig.length < 2) || decide (txin.scriptSig.length > 150)))
      (state.doS 100 rejectInvalid "bad-cb-length")
  else if fZerocoinActive && tx.hasZerocoinSpendInputs then
    require (!(decide (tx.vin.length < 1) ||
      decide (tx.vin.length > ctx.node.params.nMaxZerocoinSpendsPerTransaction)))
      (state.doS 10 rejectInvalid "bad-zerocoinspend")
  else
    require (tx.vin.all fun txin =>
      !(txin.prevout.isNull && (fZerocoinActive && !txin.isZerocoinSpend)))
      (state.doS 10 rejectInvalid "bad-txns-prevout-null")

/-- `CheckTransaction`. The argument `fRejectBadUTXO` of the source is not used. -/
def checkTransaction (tx : CTransaction) (fZerocoinActive : Bool) (_fRejectBadUTXO : Bool)
    (state : CValidationState) (fFakeSerialAttack : Bool) : Except CValidationState Unit := do
  require (!tx.vin.isEmpty) (state.doS 10 rejectInvalid "bad-txns-vin-empty")
  require (!tx.vout.isEmpty) (state.doS 10 rejectInvalid "bad-txns-vout-empty")
  require (!decide (ctx.getTxSize tx > maxBlockSizeCurrent))
    (state.doS 100 rejectInvalid "bad-txns-oversize")
  let _ ← tx.vout.foldlM (checkTxOut ctx tx fZerocoinActive state) 0
  let (_, nZCSpendCount) ← tx.vin.foldlM (checkTxIn state) ([], 0)
  if fZerocoinActive then checkActiveZerocoins ctx tx nZCSpendCount state fFakeSerialAttack
  else .ok ()
  checkInputShape ctx tx fZerocoinActive state

end

/-! ## What depends on the tip -/

/-- The accumulator of the spend in an input is known under the tip, and the spend
verifies against it. -/
def ValidationContext.verifies (ctx : ValidationContext) (fFakeSerialAttack : Bool)
    (txin : CTxIn) : Bool :=
  (txInToZerocoinSpend ctx.lib ctx.useModulusV1 txin).any fun newSpend =>
    (ctx.readAccumulatorValue newSpend.accumulatorChecksum).any fun bnAccumulatorValue =>
      ctx.lib.verifySpend newSpend
        (.ofValue ctx.lib ctx.useModulusV1 newSpend.denomination bnAccumulatorValue)
        (!fFakeSerialAttack)

section

variable {ctx : ValidationContext} {fFakeSerialAttack : Bool} {state : CValidationState}

end

end GiantCore
