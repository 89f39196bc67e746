import GiantCore.Coins.Undo
import GiantCore.Validation.AcceptBlock

/-! # The chain state

What connecting and disconnecting blocks changes: the block index with the supply
that each entry records, the active chain, the coins of its tip, the zerocoin
database with the accumulator values, and the block-tree database. Blocks on disk
never change and are part of the context, as is everything else that is only
read.

The node keeps a transaction index, which is the default. It names the last
block with a transaction that was connected, and is not taken back when the block
is disconnected.
-/

namespace GiantCore

/-- The constants of `chainparams.cpp` that only connecting blocks reads. -/
structure SupplyParams where
  nMaturity : Int
  nOldMaturity : Int
  nChangeMaturityHeight : Int
  nBlockEnforceInvalidUTXO : Int
  nInvalidAmountFiltered : CAmount
  nSupplyBeforeFakeSerial : CAmount

namespace SupplyParams

def main : SupplyParams where
  nMaturity := 200
  nOldMaturity := 100
  nChangeMaturityHeight := 71053
  nBlockEnforceInvalidUTXO := 902850
  nInvalidAmountFiltered := 268200 * COIN
  nSupplyBeforeFakeSerial := 4131563 * COIN

def testnet : SupplyParams := { main with nMaturity := 10, nOldMaturity := 10 }

def regtest : SupplyParams := { testnet with nMaturity := 100 }

/-- `Maturity`. -/
def maturity (params : SupplyParams) (height : Int) : Int :=
  if height < params.nChangeMaturityHeight then params.nOldMaturity else params.nMaturity

end SupplyParams

/-- The fields of a block index that connecting blocks reads and writes. -/
structure ChainIndex where
  /-- The hash of `pprev`. -/
  hashPrev : Option Uint256
  nHeight : Int
  nVersion : Int
  nAccumulatorCheckpoint : Uint256
  /-- The undo records at `GetUndoPos`, unless that is null. -/
  vtxundo : Option (List CTxUndo) := none
  nMint : CAmount := 0
  nMoneySupply : CAmount := 0
  mapZerocoinSupply : CoinDenomination → Int := fun _ => 0
  vMintDenominationsInBlock : List CoinDenomination := []

/-- The block index that a call works on. -/
inductive IndexRef where
  /-- An entry of `mapBlockIndex`, by its hash. -/
  | entry (hash : Uint256)
  /-- The index that `TestBlockValidity` makes up, whose `phashBlock` is null. -/
  | dummy (pindex : ChainIndex)

/-- Coins with the block they belong to. -/
structure CoinsView where
  coins : CoinsMap
  /-- `GetBestBlock`. -/
  hashBlock : Uint256

structure ChainState where
  mapBlockIndex : Uint256 → Option ChainIndex
  /-- The hashes of `chainActive` by height. -/
  chainActive : List Uint256
  coinsTip : CoinsView
  zerocoinDB : ZerocoinDB
  /-- The accumulator values of the zerocoin database. -/
  accumulators : AccumulatorStore
  /-- The transaction index of the block-tree database. -/
  txIndex : Uint256 → Option Uint256
  /-- The block indexes that were written to the block-tree database. -/
  diskIndex : Uint256 → Option ChainIndex

/-- What the script checks of a transaction say. -/
inductive ScriptVerdict where
  | valid
  /-- A flag that is not mandatory is broken. -/
  | nonMandatory (text : String)
  | invalid (text : String)
  deriving DecidableEq, Repr

/-- What connecting blocks reads and does not change. The parts of the context of
validation that are databases are taken from the chain state. -/
structure ChainContext where
  validation : ValidationContext
  supply : SupplyParams
  budget : CBudgetManager
  payments : CMasternodePayments
  /-- The state that the payee check works on. -/
  budgetState : BudgetState
  hashGenesisBlock : Uint256
  fVerifyingBlocks : Bool
  /-- `Checkpoints::GetTotalBlocksEstimate`. -/
  totalBlocksEstimate : Int
  /-- `nScriptCheckThreads` is not zero. -/
  scriptCheckThreads : Bool
  /-- `mempool.lookup`. -/
  mempool : Uint256 → Option CTransaction
  /-- `ReadBlockFromDisk`, by hash. -/
  readBlockFromDisk : Uint256 → Option CBlock
  /-- `GetPubCoinHash` and `GetSerialHash`, the keys of the zerocoin database. -/
  hashBignum : CBigNum → Nat
  getP2SHSigOpCount : CoinsMap → CTransaction → Nat
  /-- The script checks of a transaction under the flags of a block. -/
  verifyScripts : ChainIndex → CoinsMap → CTransaction → ScriptVerdict
  setInvalidOutPoints : List COutPoint
  setInvalidSerials : List CBigNum
  /-- `AccumulatorCheckpoints::mapCheckpoints`, by height. -/
  mapCheckpoints : List (Int × List (CoinDenomination × CBigNum))

namespace ChainState

variable (state : ChainState)

/-- `chainActive.Tip()`. -/
def tip : Option CBlockIndex :=
  state.chainActive.getLast?.bind fun hash =>
    (state.mapBlockIndex hash).map fun pindex => ⟨hash, pindex.nHeight⟩

/-- Change one entry of the block index. -/
def setIndex (hash : Uint256) (pindex : ChainIndex) : ChainState :=
  { state with mapBlockIndex := Function.update state.mapBlockIndex hash (some pindex) }

/-- `WriteBlockIndex`. -/
def writeBlockIndex (hash : Uint256) : ChainState :=
  { state with diskIndex := Function.update state.diskIndex hash (state.mapBlockIndex hash) }

/-- The index that a call works on, or nothing where the pointer is null. -/
def index : IndexRef → Option ChainIndex
  | .entry hash => state.mapBlockIndex hash
  | .dummy pindex => some pindex

/-- Write the index that a call works on. The dummy is a variable of the caller. -/
def setRef (pindex : ChainIndex) : IndexRef → ChainState
  | .entry hash => state.setIndex hash pindex
  | .dummy _ => state

/-- `pprev` of an index. -/
def pprev (pindex : ChainIndex) : Option ChainIndex := pindex.hashPrev.bind state.mapBlockIndex

@[simp] theorem setIndex_chainActive (hash : Uint256) (pindex : ChainIndex) :
    (state.setIndex hash pindex).chainActive = state.chainActive := rfl

@[simp] theorem setIndex_self (hash : Uint256) (pindex : ChainIndex) :
    (state.setIndex hash pindex).mapBlockIndex hash = some pindex :=
  Function.update_self ..

theorem setIndex_of_ne {hash other : Uint256} (pindex : ChainIndex) (different : other ≠ hash) :
    (state.setIndex hash pindex).mapBlockIndex other = state.mapBlockIndex other :=
  Function.update_of_ne different ..

end ChainState

/-! ## Looking things up -/

namespace ChainContext

variable (ctx : ChainContext) (state : ChainState)

/-- The chain parameters of the node. -/
def params : CChainParams := ctx.validation.node.params

/-- `GetTransaction`, with the hash of the block, which is zero for a transaction of
the memory pool. -/
def getTransaction (hash : Uint256) : Option (CTransaction × Uint256) :=
  match ctx.mempool hash with
  | some tx => some (tx, 0)
  | none => do
      let hashBlock ← state.txIndex hash
      let block ← ctx.readBlockFromDisk hashBlock
      let tx ← block.vtx.find? fun tx => tx.hash == hash
      return (tx, hashBlock)

/-- `IsBlockHashInChain`. -/
def isBlockHashInChain (hashBlock : Uint256) : Bool :=
  hashBlock != 0 && (state.mapBlockIndex hashBlock).isSome && state.chainActive.contains hashBlock

/-- `IsTransactionInChain`, with the height. -/
def isTransactionInChain (txId : Uint256) : Option Int := do
  let (_, hashBlock) ← ctx.getTransaction state txId
  if isBlockHashInChain state hashBlock then
    (state.mapBlockIndex hashBlock).map ChainIndex.nHeight
  else none

/-- The node at the chain state. -/
def nodeAt : NodeContext :=
  { ctx.validation.node with
    tip := state.tip
    mapBlockIndex := fun hash =>
      (state.mapBlockIndex hash).map fun pindex => ⟨hash, pindex.nHeight⟩ }

/-- The context of validation at the chain state. -/
def validationAt : ValidationContext :=
  { ctx.validation with
    node := ctx.nodeAt state
    readAccumulatorValue := state.accumulators.zerocoinDB
    readCoinMint := fun coin => state.zerocoinDB.mints[ctx.hashBignum coin]?
    isTransactionInChain := ctx.isTransactionInChain state
    isSerialInBlockchain := fun serial =>
      state.zerocoinDB.spends[ctx.hashBignum serial]?.bind (ctx.isTransactionInChain state) }

/-- `ValidOutPoint`. -/
def validOutPoint (out : COutPoint) (nHeight : Int) : Bool :=
  !(decide (nHeight ≥ ctx.supply.nBlockEnforceInvalidUTXO) && ctx.setInvalidOutPoints.contains out)

/-- `INT_MAX`. -/
def intMax : Int := 2 ^ 31 - 1

/-- The context of the checkpoint code at the chain state. -/
def accumulatorsAt : AccumulatorContext where
  params := ctx.params
  lib := ctx.validation.lib
  chainActive := state.chainActive.map fun hash =>
    { nAccumulatorCheckpoint := (state.mapBlockIndex hash).elim 0 ChainIndex.nAccumulatorCheckpoint
      block := ctx.readBlockFromDisk hash }
  fVerifyingBlocks := ctx.fVerifyingBlocks
  shutdownRequested := ctx.validation.node.shutdownRequested
  validOutPoint out := ctx.validOutPoint out intMax
  mapCheckpoints := ctx.mapCheckpoints

/-- The zerocoins of transactions as the databases know them, with nothing left to
test. -/
def coinsAt : ConnectContext where
  txOutToPublicCoin txout := (txOutToPublicCoin txout).map fun coin => ctx.hashBignum coin.value
  txInToZerocoinSpend txin :=
    (txInToZerocoinSpend ctx.validation.lib (ctx.validationAt state).useModulusV1 txin).elim ⟨0, 0⟩
      fun spend => ⟨ctx.hashBignum spend.coinSerialNumber, spend.denomination.toInt⟩
  admits _ _ _ := true

/-- `GetInvalidUTXOValue`. -/
def getInvalidUTXOValue : CAmount :=
  (ctx.setInvalidOutPoints.map fun out =>
    let coins := state.coinsTip.coins out.hash
    if coins.isAvailable out.n.toNat then (coins.vout[out.n.toNat]?.elim 0 CTxOut.nValue)
    else 0).sum

end ChainContext

end GiantCore
