import GiantCore.Validation.BlockSupply
import GiantCore.Validation.Mempool

/-! # Connecting blocks

`ConnectBlock` and `DisconnectBlock` of `main.cpp` with everything they change, and
`ConnectTip` and `DisconnectTip` on top of them.

`ConnectBlock` works in four parts. The first looks at the block and its
transactions, and changes only the view that it was given. The second books the
supply in the block index. The third makes the checks that need these numbers.
The fourth writes the databases, unless the call is a dry run. What the first two
parts do to the coins and to the lists of zerocoins is `ConnectContext.connectTx`,
with the tests here in front of it.
-/

namespace GiantCore

open CValidationState

/-- `MAX_BLOCK_SIGOPS_CURRENT`. -/
def maxBlockSigOpsCurrent : Nat := maxBlockSizeCurrent / 50

/-- The loop variables of `ConnectBlock`. -/
structure LoopState where
  connect : ConnectState
  nSigOps : Nat := 0
  /-- What is queued for the script threads will pass. -/
  scripts : Bool := true

/-! ## The tests of a transaction -/

section

variable (ctx : ChainContext) (state : ChainState) (pindex : ChainIndex)
  (vstate : CValidationState)

/-- The signature operations of the block so far. -/
def checkSigOpCount (nSigOps : Nat) : Except AcceptFailure Unit :=
  acceptRule (require (!decide (nSigOps > maxBlockSigOpsCurrent))
    (vstate.doS 100 rejectInvalid "bad-blk-sigops"))

/-- Zerocoins may be turned off for maintenance. -/
def checkMaintenance (block : CBlock) (tx : CTransaction) : Except AcceptFailure Unit :=
  acceptRule (require
    (!(decide (block.nTime > ctx.validation.node.getSporkValue .zerocoinMaintenanceMode) &&
      !ctx.validation.node.isInitialBlockDownload && tx.containsZerocoins)) (vstate.doS 100))

/-- The mints of a transaction can be read and are not known. -/
def checkMints (tx : CTransaction) : Except AcceptFailure Unit :=
  (tx.vout.filter CTxOut.isZerocoinMint).forM fun out =>
    match txOutToPublicCoin out with
    | none => .error (.refused ((vstate.doS 100).doS 100))
    | some coin =>
        acceptRule (require (contextualCheckZerocoinMint (ctx.validationAt state) coin
          pindex.nHeight) (vstate.doS 100))

/-- The tests of a transaction that spends zerocoins. It is not in the chain yet,
except where the blocks of the chain are verified. -/
def checkZerocoinTx (tx : CTransaction) : Except AcceptFailure Unit := do
  acceptRule (require ((ctx.isTransactionInChain state tx.hash).all fun nHeightTx =>
    ctx.fVerifyingBlocks && !decide (pindex.nHeight > nHeightTx))
    (vstate.doS 100 rejectInvalid "bad-txns-inputs-missingorspent"))
  (tx.vin.filter CTxIn.isZerocoinSpend).forM fun txin => do
    let spend ← orUndefined (txInToZerocoinSpend ctx.validation.lib
      (ctx.validationAt state).useModulusV1 txin)
    acceptRule (require (contextualCheckZerocoinSpend (ctx.validationAt state) tx spend
      pindex.nHeight) (vstate.doS 100 rejectInvalid))
  checkMints ctx state pindex vstate tx

/-- One input of `CheckInputs`, with the value of those before it. -/
def checkInput (nSpendHeight : Int) (view : CoinsMap) (nValueIn : CAmount) (txin : CTxIn) :
    Except AcceptFailure CAmount := do
  let coins := view txin.prevout.hash
  acceptRule (require (!((coins.fCoinBase || coins.fCoinStake) &&
      decide (nSpendHeight - coins.nHeight < ctx.supply.maturity coins.nHeight)))
    (vstate.invalid rejectInvalid "bad-txns-premature-spend-of-coinbase"))
  let nValue := (coins.vout[txin.prevout.n.toNat]?.getD CTxOut.null).nValue
  acceptRule (require (ctx.params.moneyRange nValue && ctx.params.moneyRange (nValueIn + nValue))
    (vstate.doS 100 rejectInvalid "bad-txns-inputvalues-outofrange"))
  return nValueIn + nValue

/-- The fee of a transaction that is no coinstake. -/
def checkFee (tx : CTransaction) (nValueIn : CAmount) : Except AcceptFailure Unit := do
  let nValueOut ← orUndefined tx.getValueOut
  acceptRule (require (!decide (nValueIn < nValueOut))
    (vstate.doS 100 rejectInvalid "bad-txns-in-belowout"))
  acceptRule (require (!decide (nValueIn - nValueOut < 0))
    (vstate.doS 100 rejectInvalid "bad-txns-fee-negative"))
  acceptRule (require (ctx.params.moneyRange (nValueIn - nValueOut))
    (vstate.doS 100 rejectInvalid "bad-txns-fee-outofrange"))

/-- The scripts of a transaction, where no threads check them. -/
def checkScripts (verdict : ScriptVerdict) : Except AcceptFailure Unit :=
  match verdict with
  | .valid => .ok ()
  | .nonMandatory text => .error (.refused (vstate.invalid rejectNonstandard text))
  | .invalid text => .error (.refused (vstate.doS 100 rejectInvalid text))

/-- `CheckInputs` for a transaction with ordinary inputs. -/
def checkInputs (fScriptChecks : Bool) (view : CoinsView) (tx : CTransaction) :
    Except AcceptFailure Unit := do
  acceptRule (require (view.coins.haveInputs tx) (vstate.invalid 0 ""))
  let pindexPrev ← orUndefined (state.mapBlockIndex view.hashBlock)
  let nValueIn ← tx.vin.foldlM (checkInput ctx vstate (pindexPrev.nHeight + 1) view.coins) 0
  if tx.isCoinStake then .ok () else checkFee ctx vstate tx nValueIn
  if fScriptChecks && !ctx.scriptCheckThreads then
    checkScripts vstate (ctx.verifyScripts pindex view.coins tx)
  else .ok ()

/-- The tests of a transaction with ordinary inputs, and its signature operations. -/
def checkOrdinaryTx (fScriptChecks : Bool) (view : CoinsView) (nSigOps : Nat)
    (tx : CTransaction) : Except AcceptFailure Nat := do
  acceptRule (require (view.coins.haveInputs tx)
    (vstate.doS 100 rejectInvalid "bad-txns-inputs-missingorspent"))
  acceptRule (require (tx.vin.all fun txin => ctx.validOutPoint txin.prevout pindex.nHeight)
    (vstate.doS 100 rejectInvalid "bad-txns-invalid-inputs"))
  checkMints ctx state pindex vstate tx
  let nSigOps := nSigOps + ctx.getP2SHSigOpCount view.coins tx
  checkSigOpCount vstate nSigOps
  -- the fee is computed before the inputs are checked, and throws on a total out of range
  let _ ← if tx.isCoinStake then .ok 0 else orUndefined tx.getValueOut
  checkInputs ctx state pindex vstate fScriptChecks view tx
  return nSigOps

/-- All tests of a transaction, and the signature operations so far. -/
def checkTx (block : CBlock) (fScriptChecks : Bool) (view : CoinsView) (nSigOps : Nat)
    (tx : CTransaction) : Except AcceptFailure Nat := do
  let nSigOps := nSigOps + ctx.validation.getLegacySigOpCount tx
  checkSigOpCount vstate nSigOps
  checkMaintenance ctx vstate block tx
  if tx.hasZerocoinSpendInputs then do
    checkZerocoinTx ctx state pindex vstate tx
    return nSigOps
  else if tx.isCoinBase then return nSigOps
  else checkOrdinaryTx ctx state pindex vstate fScriptChecks view nSigOps tx

/-- One round of the loop of `ConnectBlock`. A total that is out of range throws, and
an input that cannot be spent fails an assertion. -/
def connectRound (block : CBlock) (fScriptChecks : Bool) (hashBlock : Uint256)
    (done : List CTransaction) (tx : CTransaction) (loop : LoopState) :
    Except AcceptFailure (CTxUndo × LoopState) := do
  let nSigOps ← checkTx ctx state pindex vstate block fScriptChecks
    ⟨loop.connect.view, hashBlock⟩ loop.nSigOps tx
  let (undo, connect) ←
    orUndefined ((ctx.coinsAt state).connectTx pindex.nHeight done tx loop.connect)
  let passes := !tx.spendsInputs || !fScriptChecks || !ctx.scriptCheckThreads ||
    ctx.verifyScripts pindex loop.connect.view tx == .valid
  return (undo, { connect, nSigOps, scripts := loop.scripts && passes })

/-- The loop of `ConnectBlock`. -/
def connectRounds (block : CBlock) (fScriptChecks : Bool) (hashBlock : Uint256) :
    List CTransaction → List CTransaction → LoopState →
      Except AcceptFailure (List CTxUndo × LoopState)
  | _, [], loop => .ok ([], loop)
  | done, tx :: rest, loop => do
      let (undo, next) ←
        connectRound ctx state pindex vstate block fScriptChecks hashBlock done tx loop
      let (undos, last) ← connectRounds block fScriptChecks hashBlock (done ++ [tx]) rest next
      return (undo :: undos, last)

end

/-! ## The parts of `ConnectBlock` -/

/-- What the second part of `ConnectBlock` needs of the first. -/
structure BlockEffects where
  vtxundo : List CTxUndo
  loop : LoopState

namespace BlockEffects

variable (effects : BlockEffects)

/-- What the block adds to the money supply. -/
def net : CAmount := effects.loop.connect.nValueOut - effects.loop.connect.nValueIn

end BlockEffects

namespace ChainState

section

variable (ctx : ChainContext) (state : ChainState) (block : CBlock) (vstate : CValidationState)

/-- `CheckBlock`, unless the caller has done it: the state of the budget after it. -/
def checkBlockAgain (fJustCheck fAlreadyChecked : Bool) : Except AcceptFailure BudgetState :=
  if fAlreadyChecked then .ok ctx.budgetState
  else match checkBlock (ctx.validationAt state) block ctx.budget ctx.payments (!fJustCheck) vstate
      ctx.budgetState with
    | none => .error .undefined
    | some checked => acceptRule checked

/-- The view belongs to the parent of the block. -/
def checkBestBlock (pindex : ChainIndex) (view : CoinsView) : Except AcceptFailure Unit :=
  if pindex.hashPrev.getD 0 = view.hashBlock then .ok () else .error .undefined

/-- The kind of the block is that of its height. -/
def checkPeriod (pindex : ChainIndex) : Except AcceptFailure Unit := do
  acceptRule (require
    (!(decide (pindex.nHeight ≤ ctx.params.nLastPOWBlock) && block.isProofOfStake))
    (vstate.doS 100 rejectInvalid "PoS-early"))
  acceptRule (require
    (!(decide (pindex.nHeight > ctx.params.nLastPOWBlock) && block.isProofOfWork))
    (vstate.doS 100 rejectInvalid "PoW-ended"))

/-- Only an index without a hash is tested for transactions that overwrite others. -/
def checkOverwrites (ref : IndexRef) (view : CoinsMap) : Except AcceptFailure Unit :=
  match ref with
  | .entry _ => .ok ()
  | .dummy _ =>
      acceptRule (require (block.vtx.all fun tx => (view tx.hash).isPruned)
        (vstate.doS 100 rejectInvalid "bad-txns-BIP30"))

/-- The first part: the tests of the block and of its transactions. -/
def connectTransactions (ref : IndexRef) (pindex : ChainIndex) (view : CoinsView) :
    Except AcceptFailure BlockEffects := do
  checkPeriod ctx block vstate pindex
  checkOverwrites block vstate ref view.coins
  let fScriptChecks := decide (pindex.nHeight ≥ ctx.totalBlocksEstimate)
  let (undos, loop) ← connectRounds ctx state pindex vstate block fScriptChecks view.hashBlock []
    block.vtx { connect := { view := view.coins } }
  return ⟨undos.tail, loop⟩

/-- The supply numbers of the block. -/
def bookAmounts (effects : BlockEffects) (pprev : Option ChainIndex) (pindex : ChainIndex) :
    ChainIndex :=
  let nMoneySupplyPrev := pprev.elim 0 ChainIndex.nMoneySupply
  let nMoneySupply := nMoneySupplyPrev + effects.net
  { pindex with
    nMoneySupply
    nMint := nMoneySupply - nMoneySupplyPrev + effects.loop.connect.nFees }

/-- The second part: the supply is booked in the block index. -/
def bookSupply (ref : IndexRef) (nHeight : Int) (effects : BlockEffects) :
    ChainState × Except AcceptFailure ChainIndex :=
  match state.recalculate ctx nHeight with
  | .error failure => (state, .error failure)
  | .ok state =>
      match state.index ref with
      | none => (state, .error .undefined)
      | some pindex =>
          let pprev := state.pprev pindex
          let (pindex, updated) := updateZGICSupply ctx (ctx.validationAt state).useModulusV1 block
            pindex pprev vstate
          match updated with
          | .error failure => (state.setRef pindex ref, .error failure)
          | .ok () =>
              let pindex := bookAmounts effects pprev pindex
              (state.setRef pindex ref, .ok pindex)

/-- The block does not mint too much. -/
def checkValue (budgetState : BudgetState) (effects : BlockEffects) (pindex : ChainIndex) :
    Except AcceptFailure Unit := do
  let pprev ← orUndefined (state.pprev pindex)
  let nExpectedMint := ctx.params.getBlockValue pprev.nHeight +
    if block.isProofOfWork then effects.loop.connect.nFees else 0
  acceptRule (require
    (isBlockValueValid (ctx.nodeAt state) ctx.budget block nExpectedMint pindex.nMint
      budgetState.mnodeman).2 (vstate.doS 100 rejectInvalid "bad-cb-amount"))

/-- The checkpoint of the block is the right one. Recalculated accumulators are erased
from the database before they are compared. -/
def checkCheckpoint (pindex : ChainIndex) : ChainState × Except AcceptFailure AccumulatorMap :=
  let pprev := (state.pprev pindex).map fun prev => ChainEntry.mk prev.nAccumulatorCheckpoint
    (pindex.hashPrev.bind ctx.readBlockFromDisk)
  let accumulators := AccumulatorMap.reset ctx.validation.lib
    (decide (pindex.nHeight < ctx.params.nBlockZerocoinV2))
  let (store, validated) := validateAccumulatorCheckpoint (ctx.accumulatorsAt state) block
    pindex.nHeight pprev state.accumulators accumulators
  ({ state with accumulators := store }, match validated with
    | .ok accumulators => .ok accumulators
    | .error .nullIndex => .error .undefined
    | .error _ => .error (.refused (if ctx.validation.node.shutdownRequested then vstate
        else vstate.doS 100 rejectInvalid "bad-acc-checkpoint")))

/-- The third part: the checks that need the numbers of the second. -/
def checkBooked (budgetState : BudgetState) (effects : BlockEffects) (pindex : ChainIndex) :
    ChainState × Except AcceptFailure AccumulatorMap :=
  match checkValue ctx state block vstate budgetState effects pindex with
  | .error failure => (state, .error failure)
  | .ok () =>
      let (state, checked) := state.checkCheckpoint ctx block vstate pindex
      (state, do
        let accumulators ← checked
        acceptRule (require effects.loop.scripts
          (vstate.doS 100 rejectInvalid "block-validation-failed"))
        return accumulators)

/-- `AddAccumulatorChecksum`: the database overwrites, and the copy in memory keeps what it has. -/
def addAccumulatorChecksum (nChecksum : UInt32) (bnValue : CBigNum) (store : AccumulatorStore) :
    AccumulatorStore :=
  if ctx.validation.node.height ≥ ctx.validation.node.params.nBlockZerocoinV2 then
    { zerocoinDB := Function.update store.zerocoinDB nChecksum (some bnValue)
      mapAccumulatorValues := Function.update store.mapAccumulatorValues nChecksum
        (some ((store.mapAccumulatorValues nChecksum).getD bnValue)) }
  else store

/-- `DatabaseChecksums`. -/
def databaseChecksums (accumulators : AccumulatorMap) (store : AccumulatorStore) :
    AccumulatorStore :=
  CoinDenomination.zerocoinDenomList.foldl (fun store denom =>
    let bnValue := (accumulators.mapAccumulators denom).value
    addAccumulatorChecksum ctx (ctx.validation.lib.getChecksum bnValue) bnValue store) store

/-- The fourth part: the databases are written. The undo records are written only if
the index has none. -/
def writeBlock (ref : IndexRef) (hashBlock : Uint256) (effects : BlockEffects)
    (pindex : ChainIndex) (accumulators : AccumulatorMap) : ChainState :=
  let pindex := { pindex with vtxundo := some (pindex.vtxundo.getD effects.vtxundo) }
  let connect := effects.loop.connect
  { state.setRef pindex ref with
    zerocoinDB :=
      (state.zerocoinDB.writeCoinSpendBatch connect.vSpends).writeCoinMintBatch connect.vMints
    accumulators := databaseChecksums ctx accumulators state.accumulators
    txIndex := fun txid =>
      if block.vtx.any fun tx => tx.hash == txid then some hashBlock else state.txIndex txid }

/-- The hash of the index that a call works on. -/
def refHash : IndexRef → Uint256
  | .entry hash => hash
  | .dummy _ => 0

/-- `ConnectBlock` after the case of the first block: the state, and the view where
the block is accepted. -/
def connectAfterGenesis (ref : IndexRef) (pindex : ChainIndex) (view : CoinsView)
    (fJustCheck : Bool) (budgetState : BudgetState) :
    ChainState × Except AcceptFailure CoinsView :=
  match state.connectTransactions ctx block vstate ref pindex view with
  | .error failure => (state, .error failure)
  | .ok effects =>
      match state.bookSupply ctx block vstate ref pindex.nHeight effects with
      | (state, .error failure) => (state, .error failure)
      | (state, .ok pindex) =>
          match state.checkBooked ctx block vstate budgetState effects pindex with
          | (state, .error failure) => (state, .error failure)
          | (state, .ok accumulators) =>
              let coins := effects.loop.connect.view
              if fJustCheck then (state, .ok ⟨coins, view.hashBlock⟩)
              else
                (state.writeBlock ctx block ref (refHash ref) effects pindex accumulators,
                  .ok ⟨coins, refHash ref⟩)

/-- `ConnectBlock`. -/
def connectBlock (ref : IndexRef) (view : CoinsView) (fJustCheck fAlreadyChecked : Bool) :
    ChainState × Except AcceptFailure CoinsView :=
  match state.checkBlockAgain ctx block vstate fJustCheck fAlreadyChecked, state.index ref with
  | .error failure, _ => (state, .error failure)
  | .ok _, none => (state, .error .undefined)
  | .ok budgetState, some pindex =>
      match checkBestBlock pindex view with
      | .error failure => (state, .error failure)
      | .ok () =>
          if block.hash = ctx.hashGenesisBlock then (state, .ok ⟨view.coins, refHash ref⟩)
          else state.connectAfterGenesis ctx block vstate ref pindex view fJustCheck budgetState

end

/-! ## Disconnecting -/

section

variable (ctx : ChainContext) (state : ChainState) (vstate : CValidationState)

/-- Erase the spends of a transaction, one after the other. -/
def eraseSpends : List CTxIn → ZerocoinDB → ZerocoinDB × Except AcceptFailure Unit
  | [], db => (db, .ok ())
  | txin :: rest, db =>
      match txInToZerocoinSpend ctx.validation.lib (ctx.validationAt state).useModulusV1 txin with
      | none => (db, .error .undefined)
      | some spend =>
          eraseSpends rest (db.eraseCoinSpend (ctx.hashBignum spend.coinSerialNumber))

/-- Erase the mints of a transaction, one after the other. -/
def eraseMints : List CTxOut → ZerocoinDB → ZerocoinDB × Except AcceptFailure Unit
  | [], db => (db, .ok ())
  | txout :: rest, db =>
      match txOutToPublicCoin txout with
      | none => (db, .error (.refused (vstate.doS 100)))
      | some pubCoin => eraseMints rest (db.eraseCoinMint (ctx.hashBignum pubCoin.value))

/-- Undo the zerocoin databasing of a transaction. -/
def eraseZerocoins (tx : CTransaction) (db : ZerocoinDB) :
    ZerocoinDB × Except AcceptFailure Unit :=
  match eraseSpends ctx state (tx.vin.filter CTxIn.isZerocoinSpend) db with
  | (db, .error failure) => (db, .error failure)
  | (db, .ok ()) => eraseMints ctx vstate (tx.vout.filter CTxOut.isZerocoinMint) db

/-- Restore the inputs of a transaction from its undo record. -/
def restoreTx (tx : CTransaction) (txundo : Option CTxUndo) (current : DisconnectState) :
    Except AcceptFailure DisconnectState :=
  if tx.spendsInputs then
    match txundo with
    | none => .error .undefined
    | some undo =>
        if undo.vprevout.length ≠ tx.vin.length then .error (.refused vstate)
        else .ok (ConnectContext.restoreInputs (tx.vin.zip undo.vprevout) current)
  else .ok current

/-- One round of the loop of `DisconnectBlock`. What is erased stays erased where the
round fails. -/
def disconnectRound (nHeight : Int) (tx : CTransaction) (txundo : Option CTxUndo)
    (current : DisconnectState) : DisconnectState × Except AcceptFailure Unit :=
  let (zerocoinDB, erased) := eraseZerocoins ctx state vstate tx current.zerocoinDB
  let current := { current with zerocoinDB }
  match erased with
  | .error failure => (current, .error failure)
  | .ok () =>
      match restoreTx vstate tx txundo (ConnectContext.removeOutputs nHeight tx current) with
      | .error failure => (current, .error failure)
      | .ok restored => (restored, .ok ())

/-- The loop of `DisconnectBlock`, from the last transaction to the first. -/
def disconnectRounds (nHeight : Int) : List (CTransaction × Option CTxUndo) →
    DisconnectState → DisconnectState × Except AcceptFailure Unit
  | [], current => (current, .ok ())
  | (tx, txundo) :: rest, current =>
      match disconnectRounds nHeight rest current with
      | (current, .error failure) => (current, .error failure)
      | (current, .ok ()) => disconnectRound ctx state vstate nHeight tx txundo current

/-- `EraseAccumulatorValues`. -/
def eraseAccumulatorValues (nCheckpointErase nCheckpointPrevious : Uint256)
    (store : AccumulatorStore) : AccumulatorStore :=
  CoinDenomination.zerocoinDenomList.foldl (fun store denom =>
    let nChecksumErase := parseChecksum nCheckpointErase denom
    if nChecksumErase = parseChecksum nCheckpointPrevious denom then store
    else store.eraseChecksum nChecksumErase) store

/-- The accumulators of a block that is disconnected are erased, unless blocks are
being verified. -/
def eraseCheckpointOf (pindex pprev : ChainIndex) : ChainState :=
  if !ctx.fVerifyingBlocks && pindex.nAccumulatorCheckpoint != pprev.nAccumulatorCheckpoint then
    { state with
      accumulators := eraseAccumulatorValues pindex.nAccumulatorCheckpoint
        pprev.nAccumulatorCheckpoint state.accumulators }
  else state

/-- `DisconnectBlock` of the block of an index: the state, and where the call goes
through, the view and whether it is clean. -/
def disconnectBlock (block : CBlock) (hash : Uint256) (view : CoinsView) :
    ChainState × Except AcceptFailure (CoinsView × Bool) :=
  match state.mapBlockIndex hash with
  | none => (state, .error .undefined)
  | some pindex =>
      if hash ≠ view.hashBlock then (state, .error .undefined)
      else match pindex.vtxundo, pindex.hashPrev with
        | none, _ => (state, .error (.refused vstate))
        | some _, none => (state, .error .undefined)
        | some vtxundo, some hashPrev =>
            if vtxundo.length + 1 ≠ block.vtx.length then (state, .error (.refused vstate))
            else
              let (current, undone) := disconnectRounds ctx state vstate pindex.nHeight
                (block.vtx.zip (none :: vtxundo.map some))
                { view := view.coins, zerocoinDB := state.zerocoinDB }
              let state := { state with zerocoinDB := current.zerocoinDB }
              match undone, state.mapBlockIndex hashPrev with
              | .error failure, _ => (state, .error failure)
              | .ok (), none => (state, .error .undefined)
              | .ok (), some pprev =>
                  (state.eraseCheckpointOf ctx pindex pprev,
                    .ok (⟨current.view, hashPrev⟩, current.fClean))

end

/-! ## The tip -/

section

variable (ctx : ChainContext) (state : ChainState) (vstate : CValidationState)

/-- `ConnectTip`: connect the block of an index whose parent is the tip. The coins
are flushed, and the tip moves, only if the block is accepted. -/
def connectTip (hash : Uint256) (fAlreadyChecked : Bool) :
    ChainState × Except AcceptFailure Unit :=
  match state.mapBlockIndex hash, ctx.readBlockFromDisk hash with
  | none, _ => (state, .error .undefined)
  | some _, none => (state, .error (.refused vstate))
  | some pindex, some block =>
      if pindex.hashPrev ≠ state.chainActive.getLast? then (state, .error .undefined)
      else match state.connectBlock ctx block vstate (.entry hash) state.coinsTip false
          fAlreadyChecked with
        | (state, .error failure) => (state, .error failure)
        | (state, .ok view) =>
            ({ state with coinsTip := view, chainActive := state.chainActive ++ [hash] }, .ok ())

/-- `DisconnectTip`. An unclean disconnection fails, and its view is dropped. -/
def disconnectTip : ChainState × Except AcceptFailure Unit :=
  match state.chainActive.getLast? with
  | none => (state, .error .undefined)
  | some hash =>
      match ctx.readBlockFromDisk hash with
      | none => (state, .error (.refused vstate))
      | some block =>
          match state.disconnectBlock ctx vstate block hash state.coinsTip with
          | (state, .error failure) => (state, .error failure)
          | (state, .ok (_, false)) => (state, .error (.refused vstate))
          | (state, .ok (view, true)) =>
              ({ state with coinsTip := view, chainActive := state.chainActive.dropLast }, .ok ())

end

end ChainState

/-! ## What goes through -/

section

variable {ctx : ChainContext} {state : ChainState} {pindex : ChainIndex}
  {vstate : CValidationState} {block : CBlock} {fScriptChecks : Bool} {hashBlock : Uint256}

theorem acceptRule_eq_ok {α : Type} {rule : Except CValidationState α} {result : α} :
    acceptRule rule = .ok result ↔ rule = .ok result :=
  Foundation.Checks.mapError_eq_ok

/-- A round that goes through makes the tests and changes the coins. -/
theorem connectRound_eq_ok {done : List CTransaction} {tx : CTransaction} {loop next : LoopState}
    {undo : CTxUndo}
    (went : connectRound ctx state pindex vstate block fScriptChecks hashBlock done tx loop =
      .ok (undo, next)) :
    (∃ nSigOps, checkTx ctx state pindex vstate block fScriptChecks
      ⟨loop.connect.view, hashBlock⟩ loop.nSigOps tx = .ok nSigOps) ∧
    (ctx.coinsAt state).connectTx pindex.nHeight done tx loop.connect =
      some (undo, next.connect) := by
  simp only [connectRound, Foundation.Checks.bind_eq_ok, orUndefined_eq_ok] at went
  obtain ⟨nSigOps, tested, ⟨undo', connect⟩, connects, same⟩ := went
  cases same
  exact ⟨⟨nSigOps, tested⟩, connects⟩

/-- Inversion of the loop of `ConnectBlock`. -/
theorem connectRounds_cons {done rest : List CTransaction} {tx : CTransaction}
    {loop last : LoopState} {undos : List CTxUndo}
    (went : connectRounds ctx state pindex vstate block fScriptChecks hashBlock done (tx :: rest)
      loop = .ok (undos, last)) :
    ∃ undo next others,
      connectRound ctx state pindex vstate block fScriptChecks hashBlock done tx loop =
        .ok (undo, next) ∧
      connectRounds ctx state pindex vstate block fScriptChecks hashBlock (done ++ [tx]) rest next =
        .ok (others, last) ∧ undos = undo :: others := by
  simp only [connectRounds, Foundation.Checks.bind_eq_ok] at went
  obtain ⟨⟨undo, next⟩, first, ⟨others, final⟩, remaining, same⟩ := went
  cases same
  exact ⟨undo, next, others, first, remaining, rfl⟩

/-- **The loop** does to the coins what it does without the tests. -/
theorem connectTxs_of_connectRounds {done txs : List CTransaction} {loop last : LoopState}
    {undos : List CTxUndo}
    (went : connectRounds ctx state pindex vstate block fScriptChecks hashBlock done txs loop =
      .ok (undos, last)) :
    (ctx.coinsAt state).connectTxs pindex.nHeight done txs loop.connect =
      some (undos, last.connect) := by
  induction txs generalizing done loop undos with
  | nil =>
      cases went
      rfl
  | cons tx rest ih =>
      obtain ⟨undo, next, others, first, remaining, rfl⟩ := connectRounds_cons went
      have connects := (connectRound_eq_ok first).2
      simp only [ConnectContext.connectTxs, connects, ih remaining, Option.bind_eq_bind,
        Option.bind_some, Option.pure_def]

/-- Every transaction of the loop is tested. -/
theorem checkTx_of_connectRounds {done txs : List CTransaction} {loop last : LoopState}
    {undos : List CTxUndo}
    (went : connectRounds ctx state pindex vstate block fScriptChecks hashBlock done txs loop =
      .ok (undos, last)) :
    ∀ tx ∈ txs, ∃ view nSigOps after,
      checkTx ctx state pindex vstate block fScriptChecks view nSigOps tx = .ok after := by
  induction txs generalizing done loop undos with
  | nil => simp
  | cons tx rest ih =>
      obtain ⟨undo, next, others, first, remaining, rfl⟩ := connectRounds_cons went
      obtain ⟨after, tested⟩ := (connectRound_eq_ok first).1
      intro other member
      rcases List.mem_cons.mp member with rfl | later
      · exact ⟨_, _, after, tested⟩
      · exact ih remaining other later

end

namespace ChainState

variable {ctx : ChainContext} {state : ChainState} {block : CBlock} {vstate : CValidationState}
  {ref : IndexRef} {view after : CoinsView} {fJustCheck fAlreadyChecked : Bool}

/-- The first part of `ConnectBlock` goes through the loop. -/
theorem connectTransactions_eq_ok {pindex : ChainIndex} {effects : BlockEffects}
    (went : state.connectTransactions ctx block vstate ref pindex view = .ok effects) :
    ∃ fScriptChecks undos, connectRounds ctx state pindex vstate block fScriptChecks view.hashBlock
        [] block.vtx { connect := { view := view.coins } } = .ok (undos, effects.loop) ∧
      effects.vtxundo = undos.tail := by
  simp only [connectTransactions, Foundation.Checks.bind_eq_ok] at went
  obtain ⟨_, -, _, -, ⟨undos, loop⟩, rounds, same⟩ := went
  cases same
  exact ⟨_, undos, rounds, rfl⟩

/-- What is known of a block that is accepted and is not the first one. -/
structure Accepts (ctx : ChainContext) (state : ChainState) (block : CBlock)
    (vstate : CValidationState) (ref : IndexRef) (view : CoinsView) (pindex : ChainIndex)
    (effects : BlockEffects) (booked : ChainState) (bookedIndex : ChainIndex)
    (checked : ChainState) (accumulators : AccumulatorMap) : Prop where
  index : state.index ref = some pindex
  bestBlock : pindex.hashPrev.getD 0 = view.hashBlock
  transactions : state.connectTransactions ctx block vstate ref pindex view = .ok effects
  books : state.bookSupply ctx block vstate ref pindex.nHeight effects = (booked, .ok bookedIndex)
  passes : ∃ budgetState, booked.checkBooked ctx block vstate budgetState effects bookedIndex =
    (checked, .ok accumulators)

/-- **What `ConnectBlock` accepts.** -/
theorem connectBlock_eq_ok
    (accepted : (state.connectBlock ctx block vstate ref view fJustCheck fAlreadyChecked).2 =
      .ok after)
    (later : block.hash ≠ ctx.hashGenesisBlock) :
    ∃ pindex effects booked bookedIndex checked accumulators,
      Accepts ctx state block vstate ref view pindex effects booked bookedIndex checked
        accumulators ∧
      after.coins = effects.loop.connect.view ∧
      (fJustCheck = false → after.hashBlock = refHash ref ∧
        (state.connectBlock ctx block vstate ref view fJustCheck fAlreadyChecked).1 =
          checked.writeBlock ctx block ref (refHash ref) effects bookedIndex accumulators) := by
  unfold connectBlock at accepted ⊢
  split at accepted
  · cases accepted
  · cases accepted
  · rename_i budgetState pindex again index
    split at accepted
    · cases accepted
    · rename_i best
      rw [if_neg later] at accepted
      unfold connectAfterGenesis at accepted
      split at accepted
      · cases accepted
      · rename_i effects transactions
        split at accepted
        · cases accepted
        · rename_i booked bookedIndex books
          split at accepted
          · cases accepted
          · rename_i checked accumulators passes
            have bestBlock : pindex.hashPrev.getD 0 = view.hashBlock := by
              unfold checkBestBlock at best
              split at best
              · assumption
              · cases best
            refine ⟨pindex, effects, booked, bookedIndex, checked, accumulators,
              ⟨index, bestBlock, transactions, books, budgetState, passes⟩, ?_, ?_⟩
            · split at accepted
              · cases accepted
                rfl
              · cases accepted
                rfl
            · intro connecting
              rw [connecting, if_neg Bool.false_ne_true] at accepted
              cases accepted
              simp only [if_neg later, connectAfterGenesis, transactions, books, passes,
                connecting, Bool.false_eq_true, if_false, and_self]

end ChainState

/-! ## The node of the examples -/

/-- A node of the main network with some blocks on disk. -/
def ChainContext.mainChain (blocks : List CBlock) : ChainContext where
  validation := ValidationContext.mainContext 0
  supply := .main
  budget := {}
  payments := {}
  budgetState := { mnodeman := ⟨[]⟩ }
  hashGenesisBlock := 100
  fVerifyingBlocks := false
  totalBlocksEstimate := 0
  scriptCheckThreads := true
  mempool _ := none
  readBlockFromDisk hash := blocks.find? fun block => block.hash == hash
  hashBignum := Int.toNat
  getP2SHSigOpCount _ _ := 0
  verifyScripts _ _ _ := .valid
  setInvalidOutPoints := []
  setInvalidSerials := []
  mapCheckpoints := []

/-- The index that a block gets when it arrives. -/
def ChainIndex.ofBlock (block : CBlock) (nHeight : Int) : ChainIndex where
  hashPrev := some block.hashPrevBlock
  nHeight
  nVersion := block.nVersion
  nAccumulatorCheckpoint := block.nAccumulatorCheckpoint

/-- The index of the first block. -/
def ChainIndex.genesis : ChainIndex where
  hashPrev := none
  nHeight := 0
  nVersion := 1
  nAccumulatorCheckpoint := 0

/-- A node whose chain is the first block, and which has the index of some others. -/
def ChainState.genesis (known : List (CBlock × Int)) : ChainState where
  mapBlockIndex hash :=
    if hash = 100 then some .genesis
    else (known.find? fun entry => entry.1.hash == hash).map fun entry => .ofBlock entry.1 entry.2
  chainActive := [100]
  coinsTip := ⟨fun _ => CCoins.clear, 100⟩
  zerocoinDB := {}
  accumulators := emptyStore
  txIndex _ := none
  diskIndex _ := none

/-- A block on top of another. -/
def blockAt (hash hashPrevBlock : Uint256) (vtx : List CTransaction) : CBlock :=
  { blockOn 0 vtx with hash, hashPrevBlock }

theorem exists_of_isOk {ε α : Type} (result : Except ε α) (isOk : result.isOk = true) :
    ∃ value, result = .ok value := by
  cases result with
  | error failure => cases isOk
  | ok value => exact ⟨value, rfl⟩

end GiantCore
