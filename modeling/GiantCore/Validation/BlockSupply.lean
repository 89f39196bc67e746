import GiantCore.Validation.ChainState

/-! # The supply in the block index

`UpdateZGICSupply` of `main.cpp`, which records how many zerocoins of each
denomination there are, and the functions that rewrite the records of the whole
chain once: `RecalculateZGICMinted`, `RecalculateZGICSpent` and
`RecalculateGICSupply`.
-/

namespace GiantCore

open CoinDenomination CValidationState

/-! ## The zerocoins of a block -/

section

variable (ctx : ChainContext) (fFilterInvalid : Bool)

/-- The denominations of the mints among the outputs of a transaction from an index
on, and whether all of them could be read. -/
def txMintList (hash : Uint256) : Nat → List CTxOut → List CoinDenomination × Bool
  | _, [] => ([], true)
  | i, txOut :: vout =>
      if fFilterInvalid && !ctx.validOutPoint ⟨hash, UInt32.ofNat i⟩ ChainContext.intMax then
        ([], true)
      else if !txOut.isZerocoinMint then txMintList hash (i + 1) vout
      else match txOutToPublicCoin txOut with
        | none => ([], false)
        | some pubCoin =>
            let (rest, complete) := txMintList hash (i + 1) vout
            (pubCoin.denomination :: rest, complete)

/-- The mints of one transaction, unless it spends an output that is marked invalid. -/
def txZerocoinMints (tx : CTransaction) : List CoinDenomination × Bool :=
  if !tx.hasZerocoinMintOutputs then ([], true)
  else if fFilterInvalid &&
      !tx.vin.all fun txin => ctx.validOutPoint txin.prevout ChainContext.intMax then ([], true)
  else txMintList ctx fFilterInvalid tx.hash 0 tx.vout

/-- `BlockToZerocoinMintList`: the denominations of the mints. The callers do not look
at the result, which is false after a mint that cannot be read. -/
def zerocoinMintList : List CTransaction → List CoinDenomination
  | [] => []
  | tx :: vtx =>
      let (mints, complete) := txZerocoinMints ctx fFilterInvalid tx
      if complete then mints ++ zerocoinMintList vtx else mints

def blockToZerocoinMintList (block : CBlock) : List CoinDenomination :=
  zerocoinMintList ctx fFilterInvalid block.vtx

/-- `ZerocoinSpendListFromBlock`, or nothing where reading a spend throws. -/
def zerocoinSpendListFromBlock (accumulatorV1 : Bool) (block : CBlock) :
    Option (List CoinDenomination) :=
  block.zerocoinSpends.foldlM (fun vSpends txin =>
    let c := CoinDenomination.ofInt txin.nSequence.toNat
    if fFilterInvalid then
      (txInToZerocoinSpend ctx.validation.lib accumulatorV1 txin).map fun spend =>
        if ctx.setInvalidSerials.contains spend.coinSerialNumber then vSpends else vSpends ++ [c]
    else some (vSpends ++ [c])) []

end

/-! ## The supply of zerocoins -/

/-- `GetWrapppedSerialInflation`. -/
def getWrapppedSerialInflation (params : CChainParams) (denom : CoinDenomination) : Int :=
  if params.networkID ≠ .main then 0
  else match denom with
    | .error => 0
    | .one => 7
    | .five => 6
    | .ten => 36
    | .fifty => 22
    | .oneHundred => 244
    | .fiveHundred => 22
    | .oneThousand => 42
    | .fiveThousand => 98

def getWrapppedSerialInflationAmount (params : CChainParams) : CAmount :=
  (zerocoinDenomList.map fun denom =>
    getWrapppedSerialInflation params denom * denom.toAmount).sum

namespace ChainIndex

variable (pindex : ChainIndex)

/-- `GetZerocoinSupply`. -/
def getZerocoinSupply : CAmount :=
  (zerocoinDenomList.map fun denom => denom.toAmount * pindex.mapZerocoinSupply denom).sum

/-- The mints of a block add to the supply. -/
def addMints (mints : List CoinDenomination) : ChainIndex :=
  { pindex with
    mapZerocoinSupply := fun denom => pindex.mapZerocoinSupply denom + mints.count denom }

/-- One coin of a denomination less. -/
def subtractSpend (spent : CoinDenomination) : ChainIndex :=
  { pindex with
    mapZerocoinSupply := Function.update pindex.mapZerocoinSupply spent
      (pindex.mapZerocoinSupply spent - 1) }

/-- The supply with the serials that were duplicated outside of the chain. -/
def addInflation (params : CChainParams) : ChainIndex :=
  { pindex with
    mapZerocoinSupply := fun denom =>
      pindex.mapZerocoinSupply denom + getWrapppedSerialInflation params denom }

/-- The spends of a block, one after the other, until a supply is negative. The map
has no entry for the error, and asking for it throws. -/
def subtractSpends (vstate : CValidationState) :
    List CoinDenomination → ChainIndex → ChainIndex × Except AcceptFailure Unit
  | [], pindex => (pindex, .ok ())
  | denom :: rest, pindex =>
      if denom = .error then (pindex, .error .undefined)
      else
        let after := pindex.subtractSpend denom
        if after.mapZerocoinSupply denom < 0 then
          (after, .error (.refused (vstate.doS 100 rejectInvalid)))
        else subtractSpends vstate rest after

end ChainIndex

section

variable (ctx : ChainContext)

/-- The supply starts from that of the previous block, if that block's version has
one. -/
def initializeSupply (pindex : ChainIndex) (pprev : Option ChainIndex) : ChainIndex :=
  match pprev with
  | some prev =>
      if prev.nVersion > 3 then { pindex with mapZerocoinSupply := prev.mapZerocoinSupply }
      else pindex
  | none => pindex

/-- The one block of the main network that adds the duplicated serials. -/
def updateInflation (pindex : ChainIndex) : ChainIndex :=
  if ctx.params.networkID = .main ∧ pindex.nHeight = ctx.params.nFakeSerialBlockheightEnd + 1 ∧
      pindex.getZerocoinSupply <
        ctx.supply.nSupplyBeforeFakeSerial + getWrapppedSerialInflationAmount ctx.params then
    pindex.addInflation ctx.params
  else pindex

/-- `UpdateZGICSupply`, with the index after it. The index changes in place, also
where the call fails. -/
def updateZGICSupply (accumulatorV1 : Bool) (block : CBlock) (pindex : ChainIndex)
    (pprev : Option ChainIndex) (vstate : CValidationState) :
    ChainIndex × Except AcceptFailure Unit :=
  let fFilterInvalid := decide (pindex.nHeight ≥ ctx.params.nBlockRecalculateAccumulators)
  let listMints := blockToZerocoinMintList ctx fFilterInvalid block
  match zerocoinSpendListFromBlock ctx fFilterInvalid accumulatorV1 block with
  | none => (pindex, .error .undefined)
  | some listSpends =>
      let pindex := { initializeSupply pindex pprev with vMintDenominationsInBlock := [] }
      if pprev.isNone then (updateInflation ctx pindex, .ok ())
      else
        let pindex := { pindex.addMints listMints with vMintDenominationsInBlock := listMints }
        match pindex.subtractSpends vstate listSpends with
        | (pindex, .error failure) => (pindex, .error failure)
        | (pindex, .ok ()) => (updateInflation ctx pindex, .ok ())

end

/-- Two records of one block, which differ at most in the supply. -/
structure ChainIndex.SameBlock (before after : ChainIndex) : Prop where
  hashPrev : after.hashPrev = before.hashPrev
  nHeight : after.nHeight = before.nHeight
  nVersion : after.nVersion = before.nVersion
  nAccumulatorCheckpoint : after.nAccumulatorCheckpoint = before.nAccumulatorCheckpoint
  vtxundo : after.vtxundo = before.vtxundo

namespace ChainIndex.SameBlock

theorem refl (pindex : ChainIndex) : SameBlock pindex pindex := ⟨rfl, rfl, rfl, rfl, rfl⟩

theorem trans {first second third : ChainIndex} (before : SameBlock first second)
    (after : SameBlock second third) : SameBlock first third where
  hashPrev := after.hashPrev.trans before.hashPrev
  nHeight := after.nHeight.trans before.nHeight
  nVersion := after.nVersion.trans before.nVersion
  nAccumulatorCheckpoint := after.nAccumulatorCheckpoint.trans before.nAccumulatorCheckpoint
  vtxundo := after.vtxundo.trans before.vtxundo

theorem recorded (pindex : ChainIndex) (supply : CoinDenomination → Int)
    (mints : List CoinDenomination) : SameBlock pindex { pindex with
      mapZerocoinSupply := supply, vMintDenominationsInBlock := mints } :=
  ⟨rfl, rfl, rfl, rfl, rfl⟩

theorem subtractSpends {vstate : CValidationState} {spends : List CoinDenomination}
    {pindex after : ChainIndex} {result : Except AcceptFailure Unit}
    (went : pindex.subtractSpends vstate spends = (after, result)) : SameBlock pindex after := by
  induction spends generalizing pindex with
  | nil =>
      cases went
      exact refl _
  | cons denom rest ih =>
      have next : SameBlock pindex (pindex.subtractSpend denom) := ⟨rfl, rfl, rfl, rfl, rfl⟩
      unfold ChainIndex.subtractSpends at went
      dsimp only at went
      split at went
      · cases went
        exact refl _
      · split at went
        · cases went
          exact next
        · exact next.trans (ih went)

variable (ctx : ChainContext)

theorem updateInflation (pindex : ChainIndex) :
    SameBlock pindex (updateInflation ctx pindex) := by
  unfold GiantCore.updateInflation
  split
  · exact ⟨rfl, rfl, rfl, rfl, rfl⟩
  · exact refl pindex

theorem initializeSupply (pindex : ChainIndex) (pprev : Option ChainIndex) :
    SameBlock pindex (initializeSupply pindex pprev) := by
  unfold GiantCore.initializeSupply
  split
  · split
    · exact ⟨rfl, rfl, rfl, rfl, rfl⟩
    · exact refl pindex
  · exact refl pindex

/-- Updating the supply of zerocoins changes nothing else of the record. -/
theorem updateZGICSupply (accumulatorV1 : Bool) (block : CBlock) (pindex : ChainIndex)
    (pprev : Option ChainIndex) (vstate : CValidationState) :
    SameBlock pindex (updateZGICSupply ctx accumulatorV1 block pindex pprev vstate).1 := by
  unfold GiantCore.updateZGICSupply
  dsimp only
  split
  · exact refl pindex
  · have started := initializeSupply pindex pprev
    split
    · exact (started.trans (recorded _ _ _)).trans (updateInflation ctx _)
    · split
      · rename_i went
        exact (started.trans (recorded _ _ _)).trans (subtractSpends went)
      · rename_i went
        exact ((started.trans (recorded _ _ _)).trans (subtractSpends went)).trans
          (updateInflation ctx _)

end ChainIndex.SameBlock

/-! ## Rewriting the chain -/

/-- Go on with a value that is there; a null pointer ends the program. -/
def orUndefined {α : Type} (value : Option α) : Except AcceptFailure α :=
  value.elim (.error .undefined) .ok

@[simp] theorem orUndefined_eq_ok {α : Type} {value : Option α} {result : α} :
    orUndefined value = .ok result ↔ value = some result := by
  cases value with
  | none => simp [orUndefined]
  | some found => simp [orUndefined]

namespace ChainState

variable (ctx : ChainContext) (state : ChainState)

/-- The blocks of the active chain from a height to the tip, or nothing where there
is no block at the height. -/
def chainFrom (nHeightStart : Int) : Option (List Uint256) :=
  if nHeightStart < 0 then none
  else match state.chainActive.drop nHeightStart.toNat with
    | [] => none
    | hashes => some hashes

/-- The mints of one block are recorded again. -/
def recalculateMinted (hash : Uint256) : Except AcceptFailure ChainState := do
  let pindex ← orUndefined (state.mapBlockIndex hash)
  let block ← orUndefined (ctx.readBlockFromDisk hash)
  let listMints := blockToZerocoinMintList ctx true block
  return state.setIndex hash { pindex with vMintDenominationsInBlock := listMints }

/-- `RecalculateZGICMinted`. -/
def recalculateZGICMinted : Except AcceptFailure ChainState := do
  let hashes ← orUndefined (state.chainFrom ctx.params.nZerocoinStartHeight)
  hashes.foldlM (recalculateMinted ctx) state

/-- The supply after one block is computed again from that before it. -/
def recalculateSpent (accumulatorV1 : Bool) (state : ChainState) (hash : Uint256) :
    Except AcceptFailure ChainState := do
  let pindex ← orUndefined (state.mapBlockIndex hash)
  let block ← orUndefined (ctx.readBlockFromDisk hash)
  let listDenomsSpent ← orUndefined (zerocoinSpendListFromBlock ctx true accumulatorV1 block)
  let pprev ← orUndefined (state.pprev pindex)
  let pindex := { pindex with mapZerocoinSupply := pprev.mapZerocoinSupply }.addMints
    pindex.vMintDenominationsInBlock
  if listDenomsSpent.contains .error then throw .undefined
  let pindex := listDenomsSpent.foldl ChainIndex.subtractSpend pindex
  let pindex := if pindex.nHeight = ctx.params.nFakeSerialBlockheightEnd + 1 then
    pindex.addInflation ctx.params else pindex
  return (state.setIndex hash pindex).writeBlockIndex hash

/-- `RecalculateZGICSpent`. -/
def recalculateZGICSpent : Except AcceptFailure ChainState := do
  let hashes ← orUndefined (state.chainFrom ctx.params.nZerocoinStartHeight)
  hashes.foldlM (recalculateSpent ctx (ctx.validationAt state).useModulusV1) state

/-- The value that one input takes in, from the transaction it spends. -/
def previousValue (txin : CTxIn) : Except AcceptFailure CAmount := do
  if txin.isZerocoinSpend then return txin.nSequence.toNat * COIN
  let (txPrev, _) ← orUndefined (ctx.getTransaction state txin.prevout.hash)
  let out ← orUndefined txPrev.vout[txin.prevout.n.toNat]?
  return out.nValue

/-- The value that a transaction takes in. -/
def previousValueIn (tx : CTransaction) : Except AcceptFailure CAmount := do
  if tx.isCoinBase then return 0
  let values ← tx.vin.mapM (previousValue ctx state)
  return values.sum

/-- The value that a transaction gives out. The first output of a coinstake is
skipped. -/
def rewrittenValueOut (tx : CTransaction) : CAmount :=
  ((if tx.isCoinStake then tx.vout.tail else tx.vout).map CTxOut.nValue).sum

/-- What the block adds to the supply, from the transactions on disk. -/
def recalculatedNet (block : CBlock) : Except AcceptFailure CAmount := do
  let nValueIn ← block.vtx.mapM (previousValueIn ctx state)
  return (block.vtx.map rewrittenValueOut).sum - nValueIn.sum

/-- The supply that is added once, at the height of the recalculation. -/
def supplyAdjustment (nHeight : Int) : CAmount :=
  if nHeight = ctx.params.nBlockRecalculateAccumulators then
    ctx.supply.nInvalidAmountFiltered - ctx.getInvalidUTXOValue state
  else 0

/-- The money supply of one block is written again, on top of the supply that the
round before carries. The adjustment is not carried. -/
def recalculateSupply (carried : ChainState × CAmount) (hash : Uint256) :
    Except AcceptFailure (ChainState × CAmount) := do
  let (state, nSupplyPrev) := carried
  let pindex ← orUndefined (state.mapBlockIndex hash)
  let block ← orUndefined (ctx.readBlockFromDisk hash)
  let net ← state.recalculatedNet ctx block
  let nMoneySupply := nSupplyPrev + net
  let pindex := { pindex with
    nMoneySupply := nMoneySupply + state.supplyAdjustment ctx pindex.nHeight }
  return ((state.setIndex hash pindex).writeBlockIndex hash, nMoneySupply)

/-- The supply that is hard-coded for the start of zerocoin. -/
def supplyAtZerocoinStart : CAmount := 5449796547496199

/-- `RecalculateGICSupply`, and whether it did anything. -/
def recalculateGICSupply (nHeightStart : Int) : Except AcceptFailure (ChainState × Bool) := do
  if nHeightStart > (ctx.nodeAt state).height then return (state, false)
  let hashes ← orUndefined (state.chainFrom nHeightStart)
  let first ← orUndefined (hashes.head?.bind state.mapBlockIndex)
  let pprev ← orUndefined (state.pprev first)
  let nSupplyPrev :=
    if nHeightStart = ctx.params.nZerocoinStartHeight then supplyAtZerocoinStart
    else pprev.nMoneySupply
  let (state, _) ← hashes.foldlM (recalculateSupply ctx) (state, nSupplyPrev)
  return (state, true)

/-- The recalculations that `ConnectBlock` makes once, after the height where
accumulators are recalculated. -/
def recalculate (nHeight : Int) : Except AcceptFailure ChainState := do
  if nHeight = ctx.params.nBlockRecalculateAccumulators + 1 then
    let state ← state.recalculateZGICMinted ctx
    let state ← state.recalculateZGICSpent ctx
    let (state, _) ← state.recalculateGICSupply ctx ctx.params.nZerocoinStartHeight
    return state
  else return state

end ChainState

end GiantCore
