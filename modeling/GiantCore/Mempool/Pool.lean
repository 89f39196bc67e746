import Mathlib.Data.List.AList
import Mathlib.Data.List.Sort
import GiantCore.Foundation.RetryQueue
import GiantCore.Validation.ConnectBlock

/-! # The memory pool

`CTxMemPool` of `txmempool.cpp` with its entries, the index of the outpoints that they
spend and the total of their sizes, and what is done to it: adding, removing with and
without descendants, and `check`. `AcceptToMemoryPool` reads less of it (`TxPool.reads`).

A pointer to a transaction of the pool is the hash of its entry. The lists of removed
transactions, which go to the wallets, the fee estimates and the priorities are left out.
-/

namespace GiantCore

/-- An input of a transaction of the pool. -/
structure CInPoint where
  ptx : Uint256
  n : Nat
  deriving DecidableEq, Repr

/-- What the pool keeps of a transaction, with its size when it came in. -/
structure CTxMemPoolEntry where
  tx : CTransaction
  nTxSize : Nat
  deriving DecidableEq, Repr

/-- `CTxMemPool`. -/
structure TxPool where
  mapTx : AList fun _ : Uint256 => CTxMemPoolEntry := ∅
  mapNextTx : AList fun _ : COutPoint => CInPoint := ∅
  totalTxSize : Nat := 0
  fSanityCheck : Bool := false

namespace TxPool

variable (pool : TxPool)

def lookup (hash : Uint256) : Option CTransaction :=
  (pool.mapTx.lookup hash).map CTxMemPoolEntry.tx

/-- What `AcceptToMemoryPool` reads of the pool. -/
def reads : CTxMemPool where
  mapTx := pool.lookup
  mapNextTx out := (pool.mapNextTx.lookup out).map CInPoint.ptx

/-- The entries in the order of their keys. -/
def inOrder : List CTxMemPoolEntry :=
  (pool.mapTx.entries.insertionSort fun a b => a.1.toNat ≤ b.1.toNat).map Sigma.snd

/-- The inputs of a transaction are marked as spent by it. -/
def markInputs (tx : CTransaction) (map : AList fun _ : COutPoint => CInPoint) :
    AList fun _ : COutPoint => CInPoint :=
  tx.vin.zipIdx.foldl (fun map input => map.insert input.1.prevout ⟨tx.hash, input.2⟩) map

def addUnchecked (entry : CTxMemPoolEntry) : TxPool :=
  { pool with
    mapTx := pool.mapTx.insert entry.tx.hash entry
    mapNextTx := if !entry.tx.hasZerocoinSpendInputs then markInputs entry.tx pool.mapNextTx
      else pool.mapNextTx
    totalTxSize := pool.totalTxSize + entry.nTxSize }

/-! ## Removing -/

/-- The transactions of the pool that spend an output of a transaction. -/
def spenders (hash : Uint256) (tx : CTransaction) : List Uint256 :=
  (List.range tx.vout.length).filterMap fun i =>
    (pool.mapNextTx.lookup ⟨hash, UInt32.ofNat i⟩).map CInPoint.ptx

/-- What is queued when a transaction is removed. -/
def queued (fRecursive : Bool) (hash : Uint256) (tx : CTransaction) : List Uint256 :=
  if fRecursive then pool.spenders hash tx else []

/-- One entry is taken out, and whatever is marked under the outpoints of its inputs. -/
def eraseEntry (hash : Uint256) (entry : CTxMemPoolEntry) : TxPool :=
  { pool with
    mapTx := pool.mapTx.erase hash
    mapNextTx := entry.tx.vin.foldl (fun map txin => map.erase txin.prevout) pool.mapNextTx
    totalTxSize := pool.totalTxSize - entry.nTxSize }

theorem length_eraseEntry {hash : Uint256} {entry found : CTxMemPoolEntry}
    (here : pool.mapTx.lookup hash = some found) :
    (pool.eraseEntry hash entry).mapTx.entries.length < pool.mapTx.entries.length := by
  have member : hash ∈ pool.mapTx := AList.lookup_isSome.mp (by rw [here]; rfl)
  obtain ⟨other, before, after, -, whole, erased⟩ := List.exists_of_kerase member
  show (List.kerase hash pool.mapTx.entries).length < pool.mapTx.entries.length
  rw [erased, whole, List.length_append, List.length_append, List.length_cons]
  omega

/-- The loop of `remove` over `txToRemove`. -/
def removeQueue (fRecursive : Bool) (txToRemove : List Uint256) (pool : TxPool) : TxPool :=
  match txToRemove with
  | [] => pool
  | hash :: rest =>
      match _found : pool.mapTx.lookup hash with
      | none => removeQueue fRecursive rest pool
      | some entry =>
          removeQueue fRecursive (rest ++ pool.queued fRecursive hash entry.tx)
            (pool.eraseEntry hash entry)
termination_by (pool.mapTx.entries.length, txToRemove.length)
decreasing_by
  · simp [Prod.lex_def]
  · exact Prod.Lex.left _ _ (pool.length_eraseEntry _found)

/-- A transaction that is not in the pool any more may still have descendants there. -/
def remove (origTx : CTransaction) (fRecursive : Bool) : TxPool :=
  pool.removeQueue fRecursive (origTx.hash ::
    if fRecursive && (pool.mapTx.lookup origTx.hash).isNone then pool.spenders origTx.hash origTx
    else [])

/-- The coins of an input that is not from the pool are gone, or not mature. The heights
are subtracted as unsigned numbers. -/
def spendsPremature (supply : SupplyParams) (coins : CoinsMap) (nMemPoolHeight : Int)
    (txin : CTxIn) : Bool :=
  let found := coins txin.prevout.hash
  (pool.mapTx.lookup txin.prevout.hash).isNone &&
    (found.isPruned || ((found.fCoinBase || found.fCoinStake) &&
      decide ((nMemPoolHeight - found.nHeight) % 2 ^ 32 < supply.maturity found.nHeight)))

/-- `removeCoinbaseSpends`, or nothing where coins are gone under `fSanityCheck`. -/
def removeCoinbaseSpends (supply : SupplyParams) (coins : CoinsMap) (nMemPoolHeight : Int) :
    Option TxPool :=
  let found := fun entry : CTxMemPoolEntry =>
    entry.tx.vin.find? (pool.spendsPremature supply coins nMemPoolHeight)
  if pool.fSanityCheck && pool.inOrder.any fun entry =>
      (found entry).any fun txin => (coins txin.prevout.hash).isPruned then none
  else
    let transactionsToRemove := pool.inOrder.filter fun entry => (found entry).isSome
    some (transactionsToRemove.foldl (fun pool entry => pool.remove entry.tx true) pool)

/-- One round of `removeConflicts`. -/
def removeConflict (tx : CTransaction) (pool : TxPool) (txin : CTxIn) : TxPool :=
  match (pool.mapNextTx.lookup txin.prevout).bind fun spender => pool.lookup spender.ptx with
  | some txConflict => if txConflict.hash ≠ tx.hash then pool.remove txConflict true else pool
  | none => pool

def removeConflicts (tx : CTransaction) : TxPool := tx.vin.foldl (removeConflict tx) pool

def removeForBlock (vtx : List CTransaction) : TxPool :=
  vtx.foldl (fun pool tx => (pool.remove tx false).removeConflicts tx) pool

def clear : TxPool := { pool with mapTx := ∅, mapNextTx := ∅, totalTxSize := 0 }

/-! ## Checking -/

/-- The coins of the chain and of the pool (`CCoinsViewMemPool`), where the pool comes
first. -/
def view (coins : CoinsMap) : CoinsMap := fun txid =>
  match pool.lookup txid with
  | some tx => .fromTx tx 0x7FFFFFFF
  | none => coins txid

/-- `CheckInputs` without the scripts. -/
def checkInputValues (ctx : ChainContext) (chain : ChainState) (view : CoinsView)
    (tx : CTransaction) : Bool :=
  !tx.spendsInputs || (checkInputs ctx chain .genesis {} false view tx).isOk

/-- The assertions of `check` on one input of a transaction of the pool. -/
def checkPoolInput (coins : CoinsMap) (tx : CTransaction) (input : CTxIn × Nat) : Bool :=
  (match pool.lookup input.1.prevout.hash with
    | some tx2 => (tx2.vout[input.1.prevout.n.toNat]?).any fun out => !out.isNull
    | none => input.1.isZerocoinSpend ||
        (coins input.1.prevout.hash).isAvailable input.1.prevout.n.toNat) &&
    (input.1.isZerocoinSpend ||
      pool.mapNextTx.lookup input.1.prevout == some ⟨tx.hash, input.2⟩)

/-- Whether a transaction waits for others of the pool; the last input decides where
there are zerocoin spends. -/
def dependsWait (tx : CTransaction) : Bool :=
  tx.vin.foldl (fun fDependsWait txin =>
    if txin.isZerocoinSpend then false
    else if (pool.lookup txin.prevout.hash).isSome then true
    else fDependsWait) false

/-- The variables of `check`. -/
structure CheckState where
  mempoolDuplicate : CoinsMap
  waitingOnDependants : List CTxMemPoolEntry := []
  checkTotal : Nat := 0

/-- A transaction is tested and put into the coins. -/
def checkAndUpdate (ctx : ChainContext) (chain : ChainState) (mempoolDuplicate : CoinsMap)
    (entry : CTxMemPoolEntry) : Option CoinsMap :=
  if checkInputValues ctx chain ⟨mempoolDuplicate, chain.coinsTip.hashBlock⟩ entry.tx then
    (mempoolDuplicate.updateCoins entry.tx 1000000).map Prod.fst
  else none

/-- One round of the first loop of `check`. -/
def checkEntry (ctx : ChainContext) (chain : ChainState) (state : CheckState)
    (entry : CTxMemPoolEntry) : Option CheckState := do
  guard (entry.tx.vin.zipIdx.all (pool.checkPoolInput chain.coinsTip.coins entry.tx))
  let checkTotal := state.checkTotal + entry.nTxSize
  if pool.dependsWait entry.tx then
    return { state with
      waitingOnDependants := state.waitingOnDependants ++ [entry]
      checkTotal }
  else
    let mempoolDuplicate ← checkAndUpdate ctx chain state.mempoolDuplicate entry
    return { state with mempoolDuplicate, checkTotal }

/-- The assertions on one mark of an outpoint. -/
def checkMark (mark : (_ : COutPoint) × CInPoint) : Bool :=
  (pool.lookup mark.2.ptx).any fun tx =>
    (tx.vin[mark.2.n]?).any fun txin => txin.prevout == mark.1

/-- **The assertions of `check`**, against the coins of the tip. They are made under
`fSanityCheck` only. -/
def check (ctx : ChainContext) (chain : ChainState) : Bool :=
  match pool.inOrder.foldlM (pool.checkEntry ctx chain)
      { mempoolDuplicate := chain.coinsTip.coins } with
  | none => false
  | some state =>
      (Foundation.RetryQueue.drain (fun coins entry => coins.haveInputs entry.tx)
        (checkAndUpdate ctx chain) 0 state.mempoolDuplicate state.waitingOnDependants).isSome &&
      pool.mapNextTx.entries.all pool.checkMark && pool.totalTxSize == state.checkTotal

end TxPool

end GiantCore
