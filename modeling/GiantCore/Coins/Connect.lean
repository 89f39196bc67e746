import GiantCore.Coins.Coins
import GiantCore.Primitives.Block

/-! # Connecting and disconnecting a block

The effect of `ConnectBlock` and `DisconnectBlock` of `main.cpp` on the coin
database and on the zerocoin database. The coin database is the plain map that
a stack of `CCoinsViewCache`s represents: a transaction without an entry has the
empty coins. The tests of `ConnectBlock` that can only reject a block (signature
operations, scripts, maintenance mode, zerocoin proofs) are the parameter
`ConnectContext.admits`; decoding a zerocoin from a script is a parameter too.
-/

namespace GiantCore

/-- The coin database as a map from transaction identifiers. -/
abbrev CoinsMap := Uint256 → CCoins

/-- What is read of a zerocoin spend. -/
structure CoinSpend where
  coinSerialNumber : Nat
  denomination : Int
  deriving DecidableEq, Repr

/-- The code that block connection calls and that is not looked into. -/
structure ConnectContext where
  /-- `TxOutToPublicCoin`, which fails on a malformed mint. -/
  txOutToPublicCoin : CTxOut → Option Nat
  /-- `TxInToZerocoinSpend`. -/
  txInToZerocoinSpend : CTxIn → CoinSpend
  /-- The remaining tests of a transaction, given the coins and the transactions
  connected before it. -/
  admits : CoinsMap → List CTransaction → CTransaction → Bool

/-- The zerocoin database: the transaction of each spent serial and each mint. -/
structure ZerocoinDB where
  spends : Std.ExtTreeMap Nat Uint256 := ∅
  mints : Std.ExtTreeMap Nat Uint256 := ∅

namespace ZerocoinDB

def writeCoinSpendBatch (db : ZerocoinDB) (vSpends : List (CoinSpend × Uint256)) : ZerocoinDB :=
  let record := fun (spends : Std.ExtTreeMap Nat Uint256) (entry : CoinSpend × Uint256) =>
    spends.insert entry.1.coinSerialNumber entry.2
  { db with spends := vSpends.foldl record db.spends }

def writeCoinMintBatch (db : ZerocoinDB) (vMints : List (Nat × Uint256)) : ZerocoinDB :=
  let record := fun (mints : Std.ExtTreeMap Nat Uint256) (entry : Nat × Uint256) =>
    mints.insert entry.1 entry.2
  { db with mints := vMints.foldl record db.mints }

def eraseCoinSpend (db : ZerocoinDB) (serial : Nat) : ZerocoinDB :=
  { db with spends := db.spends.erase serial }

def eraseCoinMint (db : ZerocoinDB) (pubCoin : Nat) : ZerocoinDB :=
  { db with mints := db.mints.erase pubCoin }

end ZerocoinDB

/-- Undo information of a transaction, one record for each input. -/
structure CTxUndo where
  vprevout : List CTxInUndo := []
  deriving DecidableEq, Repr

namespace CoinsMap

/-- `ModifyCoins`: the modifier's destructor cleans the entry up. -/
def modifyCoins (view : CoinsMap) (txid : Uint256) (coins : CCoins) : CoinsMap :=
  Function.update view txid coins.cleanup

/-- `HaveInputs`. -/
def haveInputs (view : CoinsMap) (tx : CTransaction) : Bool :=
  if !tx.isCoinBase && !tx.hasZerocoinSpendInputs then
    tx.vin.all fun txin => (view txin.prevout.hash).isAvailable txin.prevout.n.toNat
  else true

/-- `GetValueIn` of a transaction with ordinary inputs. -/
def getValueIn (view : CoinsMap) (tx : CTransaction) : CAmount :=
  (tx.vin.map fun txin =>
    ((view txin.prevout.hash).vout[txin.prevout.n.toNat]?.getD CTxOut.null).nValue).sum

/-- Spend the inputs one after the other; the source asserts that each succeeds. -/
def spendInputs : List CTxIn → CoinsMap → Option (CoinsMap × List CTxInUndo)
  | [], view => some (view, [])
  | txin :: rest, view => do
      let (coins, undo) ← (view txin.prevout.hash).spend txin.prevout.n.toNat
      let (after, undos) ← spendInputs rest (view.modifyCoins txin.prevout.hash coins)
      return (after, undo :: undos)

end CoinsMap

namespace CTransaction

/-- The transaction has ordinary inputs, which it spends. -/
def spendsInputs (tx : CTransaction) : Bool := !tx.isCoinBase && !tx.hasZerocoinSpendInputs

/-- The outpoints that connecting the transaction spends. -/
def spent (tx : CTransaction) : List COutPoint :=
  if tx.spendsInputs then tx.vin.map CTxIn.prevout else []

end CTransaction

namespace CoinsMap

/-- The first half of `UpdateCoins`: mark the inputs spent. -/
def markSpent (tx : CTransaction) (view : CoinsMap) : Option (CoinsMap × CTxUndo) :=
  if tx.spendsInputs then
    (spendInputs tx.vin view).map fun (after, undos) => (after, ⟨undos⟩)
  else some (view, {})

/-- The second half of `UpdateCoins`: add the outputs. -/
def addOutputs (tx : CTransaction) (nHeight : Int) (view : CoinsMap) : CoinsMap :=
  view.modifyCoins tx.hash (CCoins.fromTx tx nHeight)

/-- `UpdateCoins`. -/
def updateCoins (tx : CTransaction) (nHeight : Int) (view : CoinsMap) :
    Option (CoinsMap × CTxUndo) :=
  (markSpent tx view).map fun (after, undo) => (addOutputs tx nHeight after, undo)

end CoinsMap

/-- The loop variables of `ConnectBlock`. -/
structure ConnectState where
  view : CoinsMap
  nFees : CAmount := 0
  nValueIn : CAmount := 0
  nValueOut : CAmount := 0
  vSpends : List (CoinSpend × Uint256) := []
  vMints : List (Nat × Uint256) := []

/-- The amounts one transaction adds to the loop variables. -/
structure TxAmounts where
  nFees : CAmount
  nValueIn : CAmount
  nValueOut : CAmount
  deriving DecidableEq

namespace ConnectContext

variable (ctx : ConnectContext)

/-- The zerocoin spends of a transaction. -/
def coinSpends (tx : CTransaction) : List CoinSpend :=
  (tx.vin.filter CTxIn.isZerocoinSpend).map ctx.txInToZerocoinSpend

/-- The mints of a transaction, which the loop decodes unless it is a coinbase. -/
def publicCoins (tx : CTransaction) : Option (List Nat) :=
  (tx.vout.filter CTxOut.isZerocoinMint).mapM ctx.txOutToPublicCoin

/-- The amounts of a transaction, or nothing when an input is missing or an
output total is out of range. -/
def txAmounts (view : CoinsMap) (tx : CTransaction) : Option TxAmounts := do
  let nValueOut ← tx.getValueOut
  if tx.hasZerocoinSpendInputs then
    return ⟨0, ((ctx.coinSpends tx).map fun spend => spend.denomination * COIN).sum, nValueOut⟩
  else if tx.isCoinBase then
    return ⟨0, 0, nValueOut⟩
  else if view.haveInputs tx then
    let nValueIn := view.getValueIn tx
    return ⟨if tx.isCoinStake then 0 else nValueIn - nValueOut, nValueIn, nValueOut⟩
  else none

/-- One round of the loop of `ConnectBlock`. -/
def connectTx (nHeight : Int) (done : List CTransaction) (tx : CTransaction)
    (state : ConnectState) : Option (CTxUndo × ConnectState) := do
  guard (ctx.admits state.view done tx)
  let amounts ← ctx.txAmounts state.view tx
  let mints ← ctx.publicCoins tx
  let (view, undo) ← state.view.updateCoins tx nHeight
  return (undo,
    { view
      nFees := state.nFees + amounts.nFees
      nValueIn := state.nValueIn + amounts.nValueIn
      nValueOut := state.nValueOut + amounts.nValueOut
      vSpends := state.vSpends ++ (ctx.coinSpends tx).map fun spend => (spend, tx.hash)
      vMints := state.vMints ++ mints.map fun pubCoin => (pubCoin, tx.hash) })

/-- The loop of `ConnectBlock`. -/
def connectTxs (nHeight : Int) :
    List CTransaction → List CTransaction → ConnectState → Option (List CTxUndo × ConnectState)
  | _, [], state => some ([], state)
  | done, tx :: rest, state => do
      let (undo, next) ← ctx.connectTx nHeight done tx state
      let (undos, last) ← connectTxs nHeight (done ++ [tx]) rest next
      return (undo :: undos, last)

end ConnectContext

/-- The shape `CheckBlock` requires: the first transaction, and no other, is a
coinbase. -/
def CBlock.hasOneCoinBase (block : CBlock) : Bool :=
  match block.vtx with
  | [] => false
  | first :: rest => first.isCoinBase && rest.all fun tx => !tx.isCoinBase

/-- What `ConnectBlock` leaves behind: the loop variables, the undo records that
it writes to disk, and the zerocoin database. -/
structure Connected where
  state : ConnectState
  vtxundo : List CTxUndo
  zerocoinDB : ZerocoinDB

/-- `ConnectBlock` of a block at a height, on the coins and the zerocoin
database. The undo record of the coinbase is dropped (`undoDummy`). -/
def connectBlock (ctx : ConnectContext) (block : CBlock) (nHeight : Int) (view : CoinsMap)
    (zerocoinDB : ZerocoinDB) : Option Connected := do
  guard block.hasOneCoinBase
  let (undos, state) ← ctx.connectTxs nHeight [] block.vtx { view }
  return ⟨state, undos.tail,
    (zerocoinDB.writeCoinSpendBatch state.vSpends).writeCoinMintBatch state.vMints⟩

/-- The variables of `DisconnectBlock`. -/
structure DisconnectState where
  view : CoinsMap
  zerocoinDB : ZerocoinDB
  fClean : Bool := true

namespace ConnectContext

variable (ctx : ConnectContext)

/-- Undo the zerocoin databasing of a transaction. -/
def eraseZerocoins (tx : CTransaction) (db : ZerocoinDB) : Option ZerocoinDB := do
  let unspent := (ctx.coinSpends tx).foldl
    (fun db spend => db.eraseCoinSpend spend.coinSerialNumber) db
  let mints ← ctx.publicCoins tx
  return mints.foldl ZerocoinDB.eraseCoinMint unspent

/-- Check that the outputs of a transaction are as the block made them, and
remove them. -/
def removeOutputs (nHeight : Int) (tx : CTransaction) (state : DisconnectState) :
    DisconnectState :=
  let outs := (state.view tx.hash).clearUnspendable
  let outsBlock := CCoins.fromTx tx nHeight
  let outs := if outsBlock.nVersion < 0 then { outs with nVersion := outsBlock.nVersion } else outs
  { state with
    view := state.view.modifyCoins tx.hash CCoins.clear
    fClean := state.fClean && outs.equals outsBlock }

/-- Restore the inputs, from the last to the first. -/
def restoreInputs : List (CTxIn × CTxInUndo) → DisconnectState → DisconnectState
  | [], state => state
  | (txin, undo) :: rest, state =>
      let after := restoreInputs rest state
      let (coins, expected) := undo.apply txin.prevout.n.toNat (after.view txin.prevout.hash)
      { after with
        view := after.view.modifyCoins txin.prevout.hash coins
        fClean := after.fClean && expected }

/-- One round of the loop of `DisconnectBlock`; the coinbase has no undo record. -/
def disconnectTx (nHeight : Int) (tx : CTransaction) (txundo : Option CTxUndo)
    (state : DisconnectState) : Option DisconnectState := do
  let zerocoinDB ← ctx.eraseZerocoins tx state.zerocoinDB
  let removed := removeOutputs nHeight tx { state with zerocoinDB }
  if tx.spendsInputs then
    let undo ← txundo
    if undo.vprevout.length ≠ tx.vin.length then none
    else return restoreInputs (tx.vin.zip undo.vprevout) removed
  else return removed

/-- The loop of `DisconnectBlock`, from the last transaction to the first. -/
def disconnectTxs (nHeight : Int) :
    List (CTransaction × Option CTxUndo) → DisconnectState → Option DisconnectState
  | [], state => some state
  | (tx, txundo) :: rest, state => do
      let after ← disconnectTxs nHeight rest state
      ctx.disconnectTx nHeight tx txundo after

end ConnectContext

/-- `DisconnectBlock` of a block at a height, with its undo records. -/
def disconnectBlock (ctx : ConnectContext) (block : CBlock) (nHeight : Int)
    (vtxundo : List CTxUndo) (view : CoinsMap) (zerocoinDB : ZerocoinDB) :
    Option DisconnectState :=
  if vtxundo.length + 1 ≠ block.vtx.length then none
  else ctx.disconnectTxs nHeight (block.vtx.zip (none :: vtxundo.map some)) { view, zerocoinDB }

end GiantCore
