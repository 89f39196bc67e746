import GiantCore.Mempool.Pool

/-! # The transactions of a new block

The list `vtx` that `CreateNewBlock` of `miner.cpp` puts together: the coinbase, the coinstake
that the wallet made, and transactions of the memory pool. Those whose inputs are all in the
coins of the tip go to a priority queue at once. The others wait until the transactions they
depend on are added. Each transaction that is taken from the queue is tested against a view of
the coins, to which it is then applied. The coinstake is not applied to that view.

Priorities and fee rates are floating-point numbers, and the queue is a heap: which of the
waiting transactions comes next is a parameter, as is what is asked of a priority. What follows
when the list is complete (the final coinbase, the header, the signature and
`TestBlockValidity`) does not change it.
-/

namespace GiantCore

/-- What `CreateNewBlock` reads and does not change. -/
structure MinerContext where
  chain : ChainContext
  nBlockMaxSize : Nat
  nBlockPrioritySize : Nat
  nBlockMinSize : Nat
  /-- The place of the transaction that the heap has in front, by fee or by priority. -/
  front : Bool → List CTransaction → Nat
  /-- `AllowFree` of the priority of a transaction. -/
  allowFree : CTransaction → Bool
  /-- The fee rate is below the relay fee, and neither fee nor priority is raised. -/
  isFree : CTransaction → Bool
  /-- `HasValidSerial`, under the parameters of the version in the serial. -/
  hasValidSerial : CBigNum → Bool
  /-- The scripts of a transaction under the mandatory flags. -/
  verifyMandatory : CoinsMap → CTransaction → Bool

/-- A transaction that waits for others, `COrphan`. -/
structure COrphan where
  tx : CTransaction
  setDependsOn : List Uint256
  deriving DecidableEq, Repr

/-- Why no list is put together. -/
inductive MinerStop where
  | stakeNotFound
  /-- A spend that cannot be read throws, an assertion fails, or a pointer to an orphan that was
  deleted stays behind. -/
  | undefined
  deriving DecidableEq, Repr

/-- What the loop over the inputs of a transaction finds, with the hashes it depends on. -/
inductive InputScan where
  | found (setDependsOn : List Uint256)
  /-- The input is neither in the coins nor in the pool. -/
  | missing (setDependsOn : List Uint256)
  | invalid (setDependsOn : List Uint256)
  deriving DecidableEq, Repr

/-- The transactions of the pool that can be taken, and those that wait. -/
structure MinerQueue where
  vecPriority : List CTransaction := []
  vOrphan : List COrphan := []
  deriving DecidableEq, Repr

/-- The variables of the selection. -/
structure Selection where
  view : CoinsMap
  vtx : List CTransaction
  queue : MinerQueue
  vBlockSerials : List CBigNum := []
  vTxSerials : List CBigNum := []
  nBlockSize : Nat := 1000
  nBlockSigOps : Nat := 100
  fSortedByFee : Bool

namespace MinerContext

variable (ctx : MinerContext) (state : ChainState) (pool : TxPool)

/-- The height of the block. -/
def nHeight : Int := (ctx.chain.nodeAt state).height + 1

/-- `invalid_out::ContainsOutPoint`. -/
def containsOutPoint (out : COutPoint) : Bool := ctx.chain.setInvalidOutPoints.contains out

/-- The loop over the inputs of a transaction without zerocoin spends. -/
def scanInputs : List CTxIn → List Uint256 → InputScan
  | [], setDependsOn => .found setDependsOn
  | txin :: rest, setDependsOn =>
      if (state.coinsTip.coins txin.prevout.hash).isPruned then
        if (pool.lookup txin.prevout.hash).isNone then .missing setDependsOn
        else scanInputs rest (setDependsOn.insert txin.prevout.hash)
      else if ctx.containsOutPoint txin.prevout then .invalid setDependsOn
      else scanInputs rest setDependsOn

/-- The transaction is one that a block may have. -/
def isCandidate (tx : CTransaction) : Bool :=
  !(tx.isCoinBase || tx.isCoinStake ||
    !isFinalTx (ctx.chain.nodeAt state) tx (ctx.nHeight state) 0) &&
  !(decide (ctx.chain.validation.node.adjustedTime >
    ctx.chain.validation.node.getSporkValue .zerocoinMaintenanceMode) && tx.containsZerocoins)

/-- One round of the loop over the pool. An orphan whose input is missing is deleted, but the
pointer to it stays; one with an invalid input is not deleted. -/
def collectTx (queue : MinerQueue) (tx : CTransaction) : Except MinerStop MinerQueue :=
  if !ctx.isCandidate state tx then .ok queue
  else if tx.hasZerocoinSpendInputs then
    .ok { queue with vecPriority := queue.vecPriority ++ [tx] }
  else match ctx.scanInputs state pool tx.vin [] with
    | .found [] => .ok { queue with vecPriority := queue.vecPriority ++ [tx] }
    | .found setDependsOn => .ok { queue with vOrphan := queue.vOrphan ++ [⟨tx, setDependsOn⟩] }
    | .missing [] => .ok queue
    | .missing _ => .error .undefined
    | .invalid [] => .ok queue
    | .invalid setDependsOn => .ok { queue with vOrphan := queue.vOrphan ++ [⟨tx, setDependsOn⟩] }

/-- The loop over the pool. -/
def collect : Except MinerStop MinerQueue :=
  (pool.inOrder.map CTxMemPoolEntry.tx).foldlM (ctx.collectTx state pool) {}

/-- The serials of a transaction, until one is not valid or known. What was collected stays. -/
def scanSerials (vBlockSerials : List CBigNum) :
    List CTxIn → List CBigNum → Option (List CBigNum × Bool)
  | [], vTxSerials => some (vTxSerials, false)
  | txin :: rest, vTxSerials =>
      if !txin.isZerocoinSpend then scanSerials vBlockSerials rest vTxSerials
      else match ctx.chain.validation.spendSerial txin with
        | none => none
        | some serial =>
            if !ctx.hasValidSerial serial || vBlockSerials.contains serial ||
                vTxSerials.contains serial then some (vTxSerials, true)
            else scanSerials vBlockSerials rest (vTxSerials ++ [serial])

/-- The test for serials that come twice. -/
def checkSerials (tx : CTransaction) (vBlockSerials vTxSerials : List CBigNum) :
    Option (List CBigNum × Bool) :=
  if !tx.hasZerocoinSpendInputs then some (vTxSerials, false)
  else if (ctx.chain.isTransactionInChain state tx.hash).isSome then some (vTxSerials, true)
  else ctx.scanSerials vBlockSerials tx.vin vTxSerials

/-- `CheckInputs` with the mandatory flags. -/
def checkInputs (view : CoinsMap) (tx : CTransaction) : Bool :=
  TxPool.checkInputValues ctx.chain state ⟨view, state.coinsTip.hashBlock⟩ tx &&
    (!tx.spendsInputs || ctx.verifyMandatory view tx)

end MinerContext

/-- The orphans that depend on a transaction do so no longer, and those that depend on no other
can be taken. -/
def MinerQueue.release (queue : MinerQueue) (hash : Uint256) : MinerQueue :=
  let vOrphan := queue.vOrphan.map fun orphan =>
    { orphan with setDependsOn := orphan.setDependsOn.filter (· ≠ hash) }
  { vecPriority := queue.vecPriority ++
      (vOrphan.filter fun orphan => orphan.setDependsOn.isEmpty).map COrphan.tx
    vOrphan := vOrphan.filter fun orphan => !orphan.setDependsOn.isEmpty }

namespace MinerContext

variable (ctx : MinerContext) (state : ChainState)

/-- A transaction that was taken from the queue is tested, and added if it passes. -/
def selectTx (current : Selection) (tx : CTransaction) : Except MinerStop Selection :=
  let nTxSize := ctx.chain.validation.getTxSize tx
  let nTxSigOps := ctx.chain.validation.getLegacySigOpCount tx
  if current.nBlockSize + nTxSize ≥ ctx.nBlockMaxSize then .ok current
  else if current.nBlockSigOps + nTxSigOps ≥ maxBlockSigOpsCurrent then .ok current
  else if !tx.hasZerocoinSpendInputs && current.fSortedByFee && ctx.isFree tx &&
      decide (current.nBlockSize + nTxSize ≥ ctx.nBlockMinSize) then .ok current
  else
    let current := { current with
      fSortedByFee := current.fSortedByFee ||
        (decide (current.nBlockSize + nTxSize ≥ ctx.nBlockPrioritySize) || !ctx.allowFree tx) }
    if !current.view.haveInputs tx then .ok current
    else match ctx.checkSerials state tx current.vBlockSerials current.vTxSerials with
      | none => .error .undefined
      | some (vTxSerials, fDoubleSerial) =>
          let current := { current with vTxSerials }
          let nTxSigOps := nTxSigOps + ctx.chain.getP2SHSigOpCount current.view tx
          if fDoubleSerial then .ok current
          else if current.nBlockSigOps + nTxSigOps ≥ maxBlockSigOpsCurrent then .ok current
          else if !ctx.checkInputs state current.view tx then .ok current
          else match current.view.updateCoins tx (ctx.nHeight state) with
            | none => .error .undefined
            | some (view, _) => .ok { current with
                view
                vtx := current.vtx ++ [tx]
                queue := current.queue.release tx.hash
                vBlockSerials := current.vBlockSerials ++ vTxSerials
                nBlockSize := current.nBlockSize + nTxSize
                nBlockSigOps := current.nBlockSigOps + nTxSigOps }

/-- The transaction in front of the queue, and the others. -/
def takeFront (fSortedByFee : Bool) (vecPriority : List CTransaction) :
    Option (CTransaction × List CTransaction) :=
  let place := ctx.front fSortedByFee vecPriority % vecPriority.length
  vecPriority[place]?.map fun tx => (tx, vecPriority.eraseIdx place)

/-- The loop over the queue, for at most as many rounds as are given. -/
def selectLoop : Nat → Selection → Except MinerStop Selection
  | 0, current => .ok current
  | rounds + 1, current =>
      match ctx.takeFront current.fSortedByFee current.queue.vecPriority with
      | none => .ok current
      | some (tx, vecPriority) => do
          let next ← ctx.selectTx state
            { current with queue := { current.queue with vecPriority } } tx
          selectLoop rounds next

/-- The coinbase, and the coinstake of a block that is proved by stake. -/
def firstTransactions (coinBase : CTransaction) (coinStake : Option CTransaction) :
    Bool → Except MinerStop (List CTransaction)
  | false => .ok [coinBase]
  | true => coinStake.elim (.error .stakeNotFound) fun stake => .ok [coinBase, stake]

/-- **The list of `CreateNewBlock`.** No transaction is taken twice, so there are no more rounds
than transactions that were collected. -/
def createNewBlock (pool : TxPool) (fProofOfStake : Bool) (coinBase : CTransaction)
    (coinStake : Option CTransaction) : Except MinerStop (List CTransaction) := do
  let vtx ← firstTransactions coinBase coinStake fProofOfStake
  let queue ← ctx.collect state pool
  let selected ← ctx.selectLoop state (queue.vecPriority.length + queue.vOrphan.length)
    { view := state.coinsTip.coins, vtx, queue
      fSortedByFee := decide (ctx.nBlockPrioritySize ≤ 0) }
  return selected.vtx

end MinerContext

/-! ## The queue -/

namespace MinerQueue

variable (queue : MinerQueue)

/-- All transactions that may still be taken. -/
def pending : List CTransaction := queue.vecPriority ++ queue.vOrphan.map COrphan.tx

/-- Releasing moves orphans to the queue. -/
theorem pending_release (hash : Uint256) : (queue.release hash).pending.Perm queue.pending := by
  unfold pending release
  dsimp only
  rw [List.append_assoc, ← List.map_append]
  refine List.Perm.append_left _ ?_
  have split := List.filter_append_perm (fun orphan : COrphan => orphan.setDependsOn.isEmpty)
    (queue.vOrphan.map fun orphan =>
      { orphan with setDependsOn := orphan.setDependsOn.filter (· ≠ hash) })
  refine (split.map COrphan.tx).trans ?_
  rw [List.map_map]
  exact List.Perm.refl _

end MinerQueue

namespace MinerContext

variable {ctx : MinerContext} {state : ChainState}

/-- The transaction in front is one of the queue. -/
theorem takeFront_eq_some {fSortedByFee : Bool} {vecPriority rest : List CTransaction}
    {tx : CTransaction} (taken : ctx.takeFront fSortedByFee vecPriority = some (tx, rest)) :
    vecPriority.Perm (tx :: rest) := by
  unfold takeFront at taken
  obtain ⟨front, found, same⟩ := Option.map_eq_some_iff.mp taken
  cases same
  obtain ⟨inside, rfl⟩ := List.getElem?_eq_some_iff.mp found
  exact (List.getElem_cons_eraseIdx_perm inside).symm

end MinerContext

end GiantCore
