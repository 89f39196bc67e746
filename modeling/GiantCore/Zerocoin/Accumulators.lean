import GiantCore.Foundation.Checks
import GiantCore.Zerocoin.Coins

/-! # Accumulator checkpoints

`accumulatormap.cpp` and the part of `accumulators.cpp` that computes the
checkpoint of a block and compares the block's own with it. A checkpoint changes
only at heights divisible by ten, and it is computed from the mints of ten
earlier blocks on top of the accumulators of the block before.

Two parameters say when this starts. The comparison is made from
`Zerocoin_Block_V2_Start` on, but the accumulators can only be initialised from
`Zerocoin_StartHeight` on. On the main network the first is far below the second.
-/

namespace GiantCore

/-- Why a checkpoint could not be computed or was not accepted. -/
inductive CheckpointFailure where
  /-- A call of `error`, with its text. -/
  | error (text : String)
  /-- The node is shutting down. -/
  | shutdown
  /-- The code reads a block index that is not there. -/
  | nullIndex
  deriving DecidableEq, Repr

/-- The database of accumulator values by checksum, and its copy in memory. -/
structure AccumulatorStore where
  zerocoinDB : UInt32 → Option CBigNum
  mapAccumulatorValues : UInt32 → Option CBigNum

/-- A block of the active chain: the checkpoint of its index, and the block if
`ReadBlockFromDisk` can read it. -/
structure ChainEntry where
  nAccumulatorCheckpoint : Uint256
  block : Option CBlock
  deriving DecidableEq, Repr

/-- What the checkpoint code reads and does not change. -/
structure AccumulatorContext where
  params : CChainParams
  lib : Libzerocoin
  /-- The blocks of `chainActive` by height. -/
  chainActive : List ChainEntry
  fVerifyingBlocks : Bool
  shutdownRequested : Bool
  /-- `ValidOutPoint` at the largest height. -/
  validOutPoint : COutPoint → Bool
  /-- `AccumulatorCheckpoints::mapCheckpoints`, by height. -/
  mapCheckpoints : List (Int × List (CoinDenomination × CBigNum))

open CoinDenomination

/-- `ParseChecksum`: the 32 bits of a denomination. -/
def parseChecksum (nChecksum : Uint256) (denomination : CoinDenomination) : UInt32 :=
  let pos := zerocoinDenomList.idxOf denomination
  UInt32.ofBitVec
    ((nChecksum >>> (32 * (zerocoinDenomList.length - 1 - pos))).setWidth 32)

/-- One accumulator for each denomination. -/
structure AccumulatorMap where
  useModulusV1 : Bool
  mapAccumulators : CoinDenomination → Accumulator

namespace AccumulatorMap

variable (lib : Libzerocoin)

/-- `Reset`, to the parameters that are given. -/
def reset (useModulusV1 : Bool) : AccumulatorMap where
  useModulusV1
  mapAccumulators := Accumulator.fresh lib useModulusV1

/-- `setValue` of one accumulator. -/
def setValue (accumulators : AccumulatorMap) (denom : CoinDenomination) (bnValue : CBigNum) :
    AccumulatorMap :=
  { accumulators with
    mapAccumulators := fun other =>
      if other = denom then { accumulators.mapAccumulators denom with value := bnValue }
      else accumulators.mapAccumulators other }

/-- `Load` of a checkpoint. -/
def load (store : AccumulatorStore) (nCheckpoint : Uint256) (accumulators : AccumulatorMap) :
    Option AccumulatorMap :=
  zerocoinDenomList.foldlM (fun accumulators denom =>
    (store.zerocoinDB (parseChecksum nCheckpoint denom)).map (accumulators.setValue denom))
    accumulators

/-- `Load` of a hard-coded checkpoint. -/
def loadHard (checkpoint : List (CoinDenomination × CBigNum)) (accumulators : AccumulatorMap) :
    AccumulatorMap :=
  checkpoint.foldl (fun accumulators entry => accumulators.setValue entry.1 entry.2) accumulators

/-- `Accumulate` without validation. -/
def accumulate (accumulators : AccumulatorMap) (pubCoin : PublicCoin) : Option AccumulatorMap :=
  if pubCoin.denomination = .error then none
  else some { accumulators with
    mapAccumulators := fun denom =>
      if denom = pubCoin.denomination then
        (accumulators.mapAccumulators denom).increment lib pubCoin.value
      else accumulators.mapAccumulators denom }

/-- `GetCheckpoint`: the checksums of all values. -/
def getCheckpoint (accumulators : AccumulatorMap) : Uint256 :=
  zerocoinDenomList.foldl (fun nCheckpoint denom =>
    nCheckpoint <<< 32 |||
      (lib.getChecksum (accumulators.mapAccumulators denom).value).toBitVec.setWidth 256) 0

end AccumulatorMap

section

variable (ctx : AccumulatorContext)

/-- The block index of a height. -/
def AccumulatorContext.indexAt (height : Int) : Except CheckpointFailure ChainEntry :=
  if height < 0 then .error .nullIndex
  else ctx.chainActive[height.toNat]?.elim (.error .nullIndex) .ok

/-- `EraseChecksum`. -/
def AccumulatorStore.eraseChecksum (store : AccumulatorStore) (nChecksum : UInt32) :
    AccumulatorStore where
  zerocoinDB checksum := if checksum = nChecksum then none else store.zerocoinDB checksum
  mapAccumulatorValues checksum :=
    if checksum = nChecksum then none else store.mapAccumulatorValues checksum

/-- The checksums of one block are erased, unless the whole checkpoint is a number
in the list of checksums to keep. -/
def eraseCheckpoint (listCheckpointsPrev : List UInt32) (store : AccumulatorStore)
    (nCheckpointDelete : Uint256) : AccumulatorStore :=
  zerocoinDenomList.foldl (fun store denom =>
    if listCheckpointsPrev.any fun kept => kept.toBitVec.setWidth 256 == nCheckpointDelete then
      store
    else store.eraseChecksum (parseChecksum nCheckpointDelete denom)) store

/-- `EraseCheckpoints`. -/
def eraseCheckpoints (nStartHeight nEndHeight : Int) (store : AccumulatorStore) :
    Except CheckpointFailure (Option AccumulatorStore) := do
  let height : Int := ctx.chainActive.length - 1
  if height < nStartHeight then return none
  let pprev ← ctx.indexAt (nStartHeight - 1)
  let listCheckpointsPrev := zerocoinDenomList.map (parseChecksum pprev.nAccumulatorCheckpoint)
  -- the block at the start height is always erased
  let count := (min height nEndHeight - nStartHeight).toNat + 1
  let erased := (ctx.chainActive.drop nStartHeight.toNat).take count
  return some <| erased.foldl (fun store entry =>
    eraseCheckpoint listCheckpointsPrev store entry.nAccumulatorCheckpoint) store

/-- `GetClosestCheckpoint`: a height, or -1, and the checkpoint there. -/
def getClosestCheckpoint (nHeight : Int) : Int × List (CoinDenomination × CBigNum) :=
  let nHeightCheckpoint := ctx.mapCheckpoints.foldl (fun nHeightCheckpoint entry =>
    if entry.1 < nHeight then
      let nHeightCheckpoint := if nHeightCheckpoint = -1 then entry.1 else nHeightCheckpoint
      if nHeight - entry.1 < nHeightCheckpoint then entry.1 else nHeightCheckpoint
    else nHeightCheckpoint) (-1)
  (nHeightCheckpoint,
    ((ctx.mapCheckpoints.find? fun entry => entry.1 == nHeightCheckpoint).map Prod.snd).getD [])

/-- `InitializeAccumulators`: the height to accumulate from and the accumulators
there. -/
def initializeAccumulators (nHeight : Int) (store : AccumulatorStore)
    (accumulators : AccumulatorMap) :
    Except CheckpointFailure (AccumulatorStore × Int × AccumulatorMap) := do
  if nHeight < ctx.params.nZerocoinStartHeight then
    throw (.error "height is below zerocoin activated")
  if nHeight = ctx.params.nBlockRecalculateAccumulators ∧ ctx.params.networkID ≠ .regtest then
    let lastGood ← ctx.indexAt ctx.params.nBlockLastGoodCheckpoint
    let some accumulators := (AccumulatorMap.reset ctx.lib accumulators.useModulusV1).load store
        lastGood.nAccumulatorCheckpoint
      | throw (.error "failed to reset to previous checkpoint when recalculating accumulators")
    let some store ← eraseCheckpoints ctx (ctx.params.nBlockLastGoodCheckpoint + 1) nHeight store
      | throw (.error "failed to erase Checkpoints while recalculating checkpoints")
    return (store, ctx.params.nBlockLastGoodCheckpoint, accumulators)
  let accumulators :=
    if nHeight ≥ ctx.params.nBlockZerocoinV2 then AccumulatorMap.reset ctx.lib false
    else accumulators
  if nHeight ≥ ctx.params.nBlockZerocoinV2 ∧ nHeight ≤ ctx.params.nBlockZerocoinV2 + 20 ∧
      ctx.params.networkID ≠ .regtest then
    let (nHeightCheckpoint, checkpoint) := getClosestCheckpoint ctx nHeight
    if nHeightCheckpoint < 0 then throw (.error "failed to load hard-checkpoint")
    return (store, nHeightCheckpoint, accumulators.loadHard checkpoint)
  let prev ← ctx.indexAt (nHeight - 1)
  if prev.nAccumulatorCheckpoint = 0 then
    return (store, nHeight, AccumulatorMap.reset ctx.lib accumulators.useModulusV1)
  let some accumulators := accumulators.load store prev.nAccumulatorCheckpoint
    | throw (.error "failed to reset to previous checkpoint")
  return (store, nHeight, accumulators)

/-- One round of the loop: the mints of the block at a height are accumulated and
counted, if the height is eligible. -/
def accumulateBlock (fFilterInvalid : Bool) (height : Int) (pindex : ChainEntry)
    (found : AccumulatorMap × Nat) : Except CheckpointFailure (AccumulatorMap × Nat) := do
  if ctx.shutdownRequested then throw .shutdown
  if height < ctx.params.nZerocoinStartHeight then return found
  let some block := pindex.block | throw (.error "failed to read block from disk")
  let some listPubcoins := blockToPubcoinList ctx.validOutPoint fFilterInvalid block
    | throw (.error "failed to get zerocoin mintlist from block")
  let some accumulators := listPubcoins.foldlM (AccumulatorMap.accumulate ctx.lib) found.1
    | throw (.error "failed to add pubcoin to accumulator")
  return (accumulators, found.2 + listPubcoins.length)

/-- The loop over the blocks from a height on. The test of the loop reads the
block index, also when no round is left. -/
def accumulateBlocks (fFilterInvalid : Bool) : Nat → Int → AccumulatorMap × Nat →
    Except CheckpointFailure (AccumulatorMap × Nat)
  | 0, height, found => do
      let _ ← ctx.indexAt height
      return found
  | rounds + 1, height, found => do
      let pindex ← ctx.indexAt height
      let found ← accumulateBlock ctx fFilterInvalid height pindex found
      accumulateBlocks fFilterInvalid rounds (height + 1) found

/-- The checkpoint of a height divisible by ten, once the accumulators are set. -/
def checkpointFrom (nHeight nHeightCheckpoint : Int) (accumulators : AccumulatorMap) :
    Except CheckpointFailure (Uint256 × AccumulatorMap) := do
  let fFilterInvalid := decide (nHeight ≥ ctx.params.nBlockRecalculateAccumulators)
  let start := nHeightCheckpoint - 20
  let (accumulators, nTotalMintsFound) ←
    accumulateBlocks ctx fFilterInvalid (nHeight - 10 - start).toNat start (accumulators, 0)
  if nTotalMintsFound = 0 then
    let prev ← ctx.indexAt (nHeight - 1)
    return (prev.nAccumulatorCheckpoint, accumulators)
  return (accumulators.getCheckpoint ctx.lib, accumulators)

/-- `CalculateAccumulatorCheckpoint`, with the database after it. -/
def calculateAccumulatorCheckpoint (nHeight : Int) (store : AccumulatorStore)
    (accumulators : AccumulatorMap) :
    AccumulatorStore × Except CheckpointFailure (Uint256 × AccumulatorMap) :=
  if nHeight < ctx.params.nBlockZerocoinV2 then (store, .ok (0, accumulators))
  else if nHeight.tmod 10 ≠ 0 then
    (store, (ctx.indexAt (nHeight - 1)).map fun prev => (prev.nAccumulatorCheckpoint, accumulators))
  else
    match initializeAccumulators ctx nHeight store
        (AccumulatorMap.reset ctx.lib accumulators.useModulusV1) with
    | .error failure => (store, .error failure)
    | .ok (store, nHeightCheckpoint, accumulators) =>
        (store, checkpointFrom ctx nHeight nHeightCheckpoint accumulators)

/-- `ValidateAccumulatorCheckpoint` for a block at a height, on top of a block
of the chain. -/
def validateAccumulatorCheckpoint (block : CBlock) (nHeight : Int) (pprev : Option ChainEntry)
    (store : AccumulatorStore) (accumulators : AccumulatorMap) :
    AccumulatorStore × Except CheckpointFailure AccumulatorMap :=
  if nHeight < ctx.params.nBlockZerocoinV2 ∨ ctx.fVerifyingBlocks then (store, .ok accumulators)
  else if nHeight.tmod 10 = 0 then
    let (store, calculated) := calculateAccumulatorCheckpoint ctx nHeight store accumulators
    (store, match calculated with
      | .error _ => .error (.error "failed to calculate accumulator checkpoint")
      | .ok (nCheckpointCalculated, accumulators) =>
          if nCheckpointCalculated ≠ block.nAccumulatorCheckpoint then
            .error (.error "accumulator does not match calculated value")
          else .ok accumulators)
  else
    (store, match pprev with
      | none => .error .nullIndex
      | some pprev =>
          if block.nAccumulatorCheckpoint ≠ pprev.nAccumulatorCheckpoint then
            .error
              (.error "new accumulator checkpoint generated on a block that is not multiple of 10")
          else .ok accumulators)

end

/-! ## Chains without mints -/

/-- A chain whose blocks mint nothing and all carry the same checkpoint. -/
structure QuietChain (ctx : AccumulatorContext) (checkpoint : Uint256) : Prop where
  noMints : ∀ entry ∈ ctx.chainActive, ∀ block, entry.block = some block →
    ∀ tx ∈ block.vtx, tx.hasZerocoinMintOutputs = false
  sameCheckpoint : ∀ entry ∈ ctx.chainActive, entry.nAccumulatorCheckpoint = checkpoint

/-- The block at a height can be read from disk. -/
def AccumulatorContext.canRead (ctx : AccumulatorContext) (height : Int) : Prop :=
  ∃ block, ctx.chainActive[height.toNat]?.bind ChainEntry.block = some block

/-- The database has a value for every checksum of a checkpoint. -/
def AccumulatorStore.holds (store : AccumulatorStore) (nCheckpoint : Uint256) : Prop :=
  ∀ denom ∈ zerocoinDenomList, ∃ value,
    store.zerocoinDB (parseChecksum nCheckpoint denom) = some value

/-- A checkpoint loads exactly when the database holds it. -/
theorem AccumulatorMap.load_eq_some_iff {store : AccumulatorStore} {nCheckpoint : Uint256}
    {accumulators : AccumulatorMap} :
    (∃ loaded, accumulators.load store nCheckpoint = some loaded) ↔ store.holds nCheckpoint := by
  unfold load AccumulatorStore.holds
  induction zerocoinDenomList generalizing accumulators with
  | nil => simp
  | cons denom rest ih =>
      rw [List.foldlM_cons, List.forall_mem_cons]
      cases found : store.zerocoinDB (parseChecksum nCheckpoint denom) with
      | none => simp
      | some value => simpa using ih

section

variable {ctx : AccumulatorContext} {checkpoint : Uint256} {height : Int}

/-- A height of the chain has a block index. -/
theorem indexAt_of_lt (ctx : AccumulatorContext) (nonneg : 0 ≤ height)
    (inChain : height < ctx.chainActive.length) :
    ∃ entry ∈ ctx.chainActive, ctx.chainActive[height.toNat]? = some entry ∧
      ctx.indexAt height = .ok entry := by
  have bound : height.toNat < ctx.chainActive.length := by omega
  have found := List.getElem?_eq_getElem bound
  refine ⟨ctx.chainActive[height.toNat], List.getElem_mem bound, found, ?_⟩
  rw [AccumulatorContext.indexAt, if_neg (Int.not_lt.mpr nonneg), found]
  rfl

/-- The block under a height of the chain carries the chain's checkpoint. -/
theorem QuietChain.parent (quiet : QuietChain ctx checkpoint)
    (onChain : height ≤ ctx.chainActive.length) (positive : 0 < height) :
    ∃ prev, ctx.chainActive[(height - 1).toNat]? = some prev ∧
      ctx.indexAt (height - 1) = .ok prev ∧ prev.nAccumulatorCheckpoint = checkpoint := by
  have inChain : height - 1 < ctx.chainActive.length := by omega
  obtain ⟨prev, member, lookup, index⟩ := indexAt_of_lt ctx (by omega) inChain
  exact ⟨prev, lookup, index, quiet.sameCheckpoint prev member⟩

/-- A round on a block without mints changes nothing, if it goes through. -/
theorem accumulateBlock_eq_ok_iff (quiet : QuietChain ctx checkpoint) {fFilterInvalid : Bool}
    {entry : ChainEntry} (member : entry ∈ ctx.chainActive) {found result : AccumulatorMap × Nat} :
    accumulateBlock ctx fFilterInvalid height entry found = .ok result ↔
      result = found ∧ ctx.shutdownRequested = false ∧
        (ctx.params.nZerocoinStartHeight ≤ height → ∃ block, entry.block = some block) := by
  unfold accumulateBlock
  cases ctx.shutdownRequested with
  | true => simp [throw, throwThe, MonadExceptOf.throw, bind, Except.bind]
  | false =>
      by_cases eligible : height < ctx.params.nZerocoinStartHeight
      · have excused : ¬ ctx.params.nZerocoinStartHeight ≤ height := Int.not_le.mpr eligible
        simp [eligible, excused, pure, Except.pure, eq_comm]
      · have needed : ctx.params.nZerocoinStartHeight ≤ height := Int.not_lt.mp eligible
        cases read : entry.block with
        | none => simp [eligible, needed, throw, throwThe, MonadExceptOf.throw]
        | some block =>
            have none := blockToPubcoinList_eq_nil ctx.validOutPoint fFilterInvalid
              (quiet.noMints entry member block read)
            simp [eligible, none, pure, Except.pure, eq_comm]

/-- **The loop on a chain without mints.** It gives back what it was given, and it
goes through exactly when every eligible block of its range can be read and
the node is not shutting down. -/
theorem accumulateBlocks_eq_ok_iff (quiet : QuietChain ctx checkpoint) {fFilterInvalid : Bool}
    {rounds : Nat} (nonneg : 0 ≤ height) (inChain : height + rounds < ctx.chainActive.length)
    {found result : AccumulatorMap × Nat} :
    accumulateBlocks ctx fFilterInvalid rounds height found = .ok result ↔
      result = found ∧ (0 < rounds → ctx.shutdownRequested = false) ∧
        ∀ other, height ≤ other → other < height + rounds →
          ctx.params.nZerocoinStartHeight ≤ other → ctx.canRead other := by
  induction rounds generalizing height found with
  | zero =>
      obtain ⟨entry, -, -, index⟩ := indexAt_of_lt ctx nonneg (by omega)
      rw [accumulateBlocks, index]
      have none : ∀ other : Int, height ≤ other → ¬ other < height + (0 : Nat) := by omega
      constructor
      · rintro ⟨⟩
        exact ⟨rfl, nofun, fun other above below => absurd below (none other above)⟩
      · rintro ⟨rfl, -, -⟩
        rfl
  | succ rounds ih =>
      obtain ⟨entry, member, lookup, index⟩ := indexAt_of_lt ctx nonneg (by omega)
      have first : ∀ middle, accumulateBlock ctx fFilterInvalid height entry found = .ok middle ↔
          _ := fun middle => accumulateBlock_eq_ok_iff quiet member
      have rest : accumulateBlocks ctx fFilterInvalid rounds (height + 1) found = .ok result ↔ _ :=
        ih (by omega) (by omega)
      have read : ctx.canRead height ↔ ∃ block, entry.block = some block := by
        simp [AccumulatorContext.canRead, lookup]
      rw [accumulateBlocks, index]
      change (accumulateBlock ctx fFilterInvalid height entry found >>=
        accumulateBlocks ctx fFilterInvalid rounds (height + 1)) = .ok result ↔ _
      rw [Foundation.Checks.bind_eq_ok]
      constructor
      · intro ⟨middle, done, remaining⟩
        obtain ⟨rfl, active, readFirst⟩ := (first middle).mp done
        obtain ⟨same, -, readRest⟩ := rest.mp remaining
        refine ⟨same, fun _ => active, fun other above below eligible => ?_⟩
        rcases Int.le_iff_eq_or_lt.mp above with rfl | later
        · exact read.mpr (readFirst eligible)
        · exact readRest other later (by omega) eligible
      · intro ⟨same, active, readable⟩
        refine ⟨found, (first found).mpr ⟨rfl, active (by omega), fun eligible => ?_⟩, ?_⟩
        · exact read.mp (readable height (Int.le_refl height) (by omega) eligible)
        · refine rest.mpr ⟨same, fun _ => active (by omega), fun other above below => ?_⟩
          exact readable other (by omega) (by omega)

end

/-! ## The main network -/

section

variable {ctx : AccumulatorContext} {checkpoint : Uint256} {store : AccumulatorStore}
  {accumulators : AccumulatorMap} {nHeight : Int}

/-- What a checkpoint of a height needs: zerocoin is active, the node goes on
running, the accumulators of the chain's checkpoint are in the database and the
blocks to accumulate are on disk. -/
structure AccumulatorContext.CanCalculate (ctx : AccumulatorContext) (store : AccumulatorStore)
    (checkpoint : Uint256) (nHeight : Int) : Prop where
  active : ctx.params.nZerocoinStartHeight ≤ nHeight
  running : ctx.shutdownRequested = false
  stored : checkpoint = 0 ∨ store.holds checkpoint
  onDisk : ∀ height, nHeight - 20 ≤ height → height < nHeight - 10 →
    ctx.params.nZerocoinStartHeight ≤ height → ctx.canRead height

theorem nBlockZerocoinV2_of_main (main : ctx.params = CChainParams.main) :
    ctx.params.nBlockZerocoinV2 = 1153160 := by
  rw [main]
  rfl

/-- The accumulators are set exactly when zerocoin is active and the checkpoint
of the block before can be loaded. -/
theorem initializeAccumulators_eq_ok_iff (main : ctx.params = CChainParams.main)
    (onChain : nHeight ≤ ctx.chainActive.length) (quiet : QuietChain ctx checkpoint)
    (late : ctx.params.nBlockZerocoinV2 ≤ nHeight)
    {after : AccumulatorStore × Int × AccumulatorMap} :
    initializeAccumulators ctx nHeight store accumulators = .ok after ↔
      ctx.params.nZerocoinStartHeight ≤ nHeight ∧ after.1 = store ∧
        after.2.1 = nHeight ∧
        (if checkpoint = 0 then after.2.2 = AccumulatorMap.reset ctx.lib false
          else (AccumulatorMap.reset ctx.lib false).load store checkpoint = some after.2.2) := by
  have startHeight : ctx.params.nZerocoinStartHeight = 99999999 := by rw [main]; rfl
  have recalculate : ctx.params.nBlockRecalculateAccumulators = 908000 := by rw [main]; rfl
  have secondVersion := nBlockZerocoinV2_of_main main
  obtain ⟨storeAfter, heightAfter, accumulatorsAfter⟩ := after
  unfold initializeAccumulators
  by_cases active : ctx.params.nZerocoinStartHeight ≤ nHeight
  · have notBelow : ¬ nHeight < ctx.params.nZerocoinStartHeight := Int.not_lt.mpr active
    have ordinary : ¬ (nHeight = ctx.params.nBlockRecalculateAccumulators ∧
        ctx.params.networkID ≠ .regtest) := by omega
    have notHard : ¬ (nHeight ≥ ctx.params.nBlockZerocoinV2 ∧
        nHeight ≤ ctx.params.nBlockZerocoinV2 + 20 ∧
        ctx.params.networkID ≠ .regtest) := by omega
    obtain ⟨prev, -, index, carried⟩ := quiet.parent onChain (by omega)
    rw [if_neg notBelow, if_neg ordinary, if_neg notHard, index, if_pos late]
    simp only [bind, Except.bind, carried]
    by_cases zero : checkpoint = 0
    · simp only [if_pos zero, pure, Except.pure, Except.ok.injEq, Prod.mk.injEq, active, true_and,
        AccumulatorMap.reset, eq_comm]
    · simp only [if_neg zero, active, true_and]
      cases (AccumulatorMap.reset ctx.lib false).load store checkpoint with
      | none => simp [throw, throwThe, MonadExceptOf.throw]
      | some loaded => simp [pure, Except.pure, eq_comm]
  · have below : nHeight < ctx.params.nZerocoinStartHeight := Int.not_le.mp active
    rw [if_pos below]
    simp [active, throw, throwThe, MonadExceptOf.throw, bind, Except.bind]

/-- The accumulation of the last ten blocks that are old enough gives the chain's
checkpoint again. -/
theorem checkpointFrom_eq_ok_iff (onChain : nHeight ≤ ctx.chainActive.length)
    (quiet : QuietChain ctx checkpoint) (long : 20 ≤ nHeight) {after : Uint256 × AccumulatorMap} :
    checkpointFrom ctx nHeight nHeight accumulators = .ok after ↔
      after = (checkpoint, accumulators) ∧ ctx.shutdownRequested = false ∧
        ∀ height, nHeight - 20 ≤ height → height < nHeight - 10 →
          ctx.params.nZerocoinStartHeight ≤ height → ctx.canRead height := by
  have rounds : (nHeight - 10 - (nHeight - 20)).toNat = 10 := by omega
  have inChain : nHeight - 20 + (10 : Nat) < ctx.chainActive.length := by omega
  have sum : nHeight - 20 + (10 : Nat) = nHeight - 10 := by omega
  obtain ⟨prev, -, index, carried⟩ := quiet.parent onChain (by omega)
  have loop : ∀ found, accumulateBlocks ctx
      (decide (nHeight ≥ ctx.params.nBlockRecalculateAccumulators)) 10
      (nHeight - 20) (accumulators, 0) = .ok found ↔ _ :=
    fun found => accumulateBlocks_eq_ok_iff quiet (by omega) inChain
  rw [sum] at loop
  simp only [checkpointFrom, rounds, index]
  rw [Foundation.Checks.bind_eq_ok]
  constructor
  · intro ⟨found, done, value⟩
    obtain ⟨rfl, active, readable⟩ := (loop found).mp done
    cases value
    exact ⟨by rw [carried], active (by decide), readable⟩
  · rintro ⟨rfl, active, readable⟩
    refine ⟨(accumulators, 0), (loop _).mpr ⟨rfl, fun _ => active, readable⟩, ?_⟩
    rw [← carried]
    rfl

/-- From the second version on, the checkpoint of a height divisible by ten can be
calculated exactly if what it needs is there, and is then the chain's. -/
theorem calculateAccumulatorCheckpoint_eq_ok_iff (main : ctx.params = CChainParams.main)
    (onChain : nHeight ≤ ctx.chainActive.length) (quiet : QuietChain ctx checkpoint)
    (late : ctx.params.nBlockZerocoinV2 ≤ nHeight)
    (tenth : nHeight.tmod 10 = 0) {value : Uint256} :
    (∃ after, (calculateAccumulatorCheckpoint ctx nHeight store accumulators).2 =
        .ok (value, after)) ↔
      value = checkpoint ∧ ctx.CanCalculate store checkpoint nHeight := by
  have secondVersion := nBlockZerocoinV2_of_main main
  have initialized : ∀ after, initializeAccumulators ctx nHeight store
      (AccumulatorMap.reset ctx.lib accumulators.useModulusV1) = .ok after ↔ _ :=
    fun after => initializeAccumulators_eq_ok_iff main onChain quiet late
  have finished : ∀ accumulators after, checkpointFrom ctx nHeight nHeight
      accumulators = .ok after ↔ _ := fun accumulators after =>
    checkpointFrom_eq_ok_iff onChain quiet (by omega)
  rw [calculateAccumulatorCheckpoint, if_neg (Int.not_lt.mpr late), if_neg (not_not.mpr tenth)]
  constructor
  · intro ⟨last, done⟩
    split at done
    · cases done
    · rename_i storeAfter heightAfter loaded init
      obtain ⟨active, rfl, rfl, stored⟩ := (initialized _).mp init
      obtain ⟨same, running, onDisk⟩ := (finished _ _).mp done
      cases same
      refine ⟨rfl, active, running, ?_, onDisk⟩
      by_cases zero : checkpoint = 0
      · exact Or.inl zero
      · rw [if_neg zero] at stored
        exact Or.inr (AccumulatorMap.load_eq_some_iff.mp ⟨_, stored⟩)
  · rintro ⟨rfl, possible⟩
    have loads : ∃ loaded, if value = 0 then loaded = AccumulatorMap.reset ctx.lib false
        else (AccumulatorMap.reset ctx.lib false).load store value = some loaded := by
      by_cases zero : value = 0
      · exact ⟨_, by rw [if_pos zero]⟩
      · obtain ⟨loaded, found⟩ :=
          AccumulatorMap.load_eq_some_iff.mpr (possible.stored.resolve_left zero)
        exact ⟨loaded, by rw [if_neg zero, found]⟩
    obtain ⟨loaded, stored⟩ := loads
    rw [(initialized (store, nHeight, loaded)).mpr ⟨possible.active, rfl, rfl, stored⟩]
    exact ⟨loaded, (finished _ _).mpr ⟨rfl, possible.running, possible.onDisk⟩⟩

end

/-- The block index under a height of the chain. -/
def AccumulatorContext.parentOf (ctx : AccumulatorContext) (nHeight : Int) : Option ChainEntry :=
  if nHeight ≤ 0 then none else ctx.chainActive[(nHeight - 1).toNat]?

/-- `ValidateAccumulatorCheckpoint` lets a block at a height of the chain pass. -/
def AccumulatorContext.accepts (ctx : AccumulatorContext) (store : AccumulatorStore)
    (accumulators : AccumulatorMap) (nHeight : Int) (block : CBlock) : Prop :=
  ∃ after, (validateAccumulatorCheckpoint ctx block nHeight (ctx.parentOf nHeight) store
    accumulators).2 = .ok after

section

variable {ctx : AccumulatorContext} {checkpoint : Uint256} {store : AccumulatorStore}
  {accumulators : AccumulatorMap} {nHeight : Int} {block : CBlock}

theorem accepts_of_unchecked
    (unchecked : nHeight < ctx.params.nBlockZerocoinV2 ∨ ctx.fVerifyingBlocks = true) :
    ctx.accepts store accumulators nHeight block := by
  unfold AccumulatorContext.accepts validateAccumulatorCheckpoint
  rw [if_pos unchecked]
  exact ⟨accumulators, rfl⟩

/-- At a height not divisible by ten the checkpoint has to stay. -/
theorem accepts_iff_of_not_tenth (onChain : nHeight ≤ ctx.chainActive.length)
    (quiet : QuietChain ctx checkpoint) (positive : 0 < nHeight)
    (checked : ¬ (nHeight < ctx.params.nBlockZerocoinV2 ∨ ctx.fVerifyingBlocks = true))
    (between : nHeight.tmod 10 ≠ 0) :
    ctx.accepts store accumulators nHeight block ↔ block.nAccumulatorCheckpoint = checkpoint := by
  obtain ⟨prev, lookup, -, carried⟩ := quiet.parent onChain positive
  have parent : ctx.parentOf nHeight = some prev := by
    rw [AccumulatorContext.parentOf, if_neg (Int.not_le.mpr positive), lookup]
  unfold AccumulatorContext.accepts validateAccumulatorCheckpoint
  rw [if_neg checked, if_neg between, parent]
  by_cases same : block.nAccumulatorCheckpoint = checkpoint
  · simp [carried, same]
  · simp [carried, same]

/-- At a height divisible by ten the checkpoint has to be the calculated one. -/
theorem accepts_iff_of_tenth
    (checked : ¬ (nHeight < ctx.params.nBlockZerocoinV2 ∨ ctx.fVerifyingBlocks = true))
    (tenth : nHeight.tmod 10 = 0) :
    ctx.accepts store accumulators nHeight block ↔
      ∃ after, (calculateAccumulatorCheckpoint ctx nHeight store accumulators).2 =
        .ok (block.nAccumulatorCheckpoint, after) := by
  unfold AccumulatorContext.accepts validateAccumulatorCheckpoint
  rw [if_neg checked, if_pos tenth]
  cases calculated : (calculateAccumulatorCheckpoint ctx nHeight store accumulators).2 with
  | error failure => simp [calculated]
  | ok result =>
      obtain ⟨value, after⟩ := result
      by_cases same : value = block.nAccumulatorCheckpoint
      · simp [calculated, same]
      · simp [calculated, same]

/-- At a height not divisible by ten the calculated checkpoint is the chain's. -/
theorem calculateAccumulatorCheckpoint_of_not_tenth (onChain : nHeight ≤ ctx.chainActive.length)
    (quiet : QuietChain ctx checkpoint) (positive : 0 < nHeight)
    (late : ctx.params.nBlockZerocoinV2 ≤ nHeight) (between : nHeight.tmod 10 ≠ 0) :
    (calculateAccumulatorCheckpoint ctx nHeight store accumulators).2 =
      .ok (checkpoint, accumulators) := by
  obtain ⟨prev, -, index, carried⟩ := quiet.parent onChain positive
  rw [calculateAccumulatorCheckpoint, if_neg (Int.not_lt.mpr late), if_pos between, index,
    ← carried]
  rfl

end

/-- The chain is not halted at a height: some block passes, and every block with
the calculated checkpoint does. -/
def AccumulatorContext.NotHalted (ctx : AccumulatorContext) (store : AccumulatorStore)
    (accumulators : AccumulatorMap) (nHeight : Int) : Prop :=
  (∃ block, ctx.accepts store accumulators nHeight block) ∧
    ∀ value after block,
      (calculateAccumulatorCheckpoint ctx nHeight store accumulators).2 = .ok (value, after) →
      block.nAccumulatorCheckpoint = value → ctx.accepts store accumulators nHeight block

/-- An empty block that carries a checkpoint. -/
def blockCarrying (nAccumulatorCheckpoint : Uint256) : CBlock where
  hash := 0
  hashPrevBlock := 0
  hashMerkleRoot := 0
  nTime := 0
  nBits := 0
  vtx := []
  nAccumulatorCheckpoint

/-- **When the chain goes on.** On the main network, after blocks that mint nothing
and carry one checkpoint, some block of a height passes the checkpoint rule, and
every block with the calculated checkpoint does, if and only if the rule is
not applied at the height, or the height is not divisible by ten, or the
checkpoint can be calculated, for which zerocoin has to be active. -/
theorem notHalted_iff (ctx : AccumulatorContext) (store : AccumulatorStore)
    (accumulators : AccumulatorMap) (checkpoint : Uint256) (nHeight : Int)
    (main : ctx.params = CChainParams.main) (onChain : nHeight ≤ ctx.chainActive.length)
    (quiet : QuietChain ctx checkpoint) :
    ctx.NotHalted store accumulators nHeight ↔
      ctx.fVerifyingBlocks = true ∨ nHeight < ctx.params.nBlockZerocoinV2 ∨
        nHeight.tmod 10 ≠ 0 ∨ ctx.CanCalculate store checkpoint nHeight := by
  have secondVersion := nBlockZerocoinV2_of_main main
  by_cases unchecked : nHeight < ctx.params.nBlockZerocoinV2 ∨ ctx.fVerifyingBlocks = true
  · have passes : ∀ block, ctx.accepts store accumulators nHeight block :=
      fun block => accepts_of_unchecked unchecked
    have goesOn : ctx.NotHalted store accumulators nHeight :=
      ⟨⟨blockCarrying 0, passes _⟩, fun _ _ block _ _ => passes block⟩
    refine iff_of_true goesOn ?_
    rcases unchecked with early | verifying
    · exact Or.inr (Or.inl early)
    · exact Or.inl verifying
  have late : ctx.params.nBlockZerocoinV2 ≤ nHeight := by omega
  have verifying : ¬ ctx.fVerifyingBlocks = true := fun verifying => unchecked (Or.inr verifying)
  by_cases tenth : nHeight.tmod 10 = 0
  · have accepts : ∀ block, ctx.accepts store accumulators nHeight block ↔ _ :=
      fun block => accepts_iff_of_tenth unchecked tenth
    have calculates : ∀ value, (∃ after,
        (calculateAccumulatorCheckpoint ctx nHeight store accumulators).2 = .ok (value, after)) ↔
          value = checkpoint ∧ ctx.CanCalculate store checkpoint nHeight :=
      fun value => calculateAccumulatorCheckpoint_eq_ok_iff main onChain quiet late tenth
    constructor
    · intro ⟨⟨block, passes⟩, _⟩
      exact Or.inr (Or.inr (Or.inr ((calculates _).mp ((accepts block).mp passes)).2))
    · rintro (verifies | early | between | possible)
      · exact absurd verifies verifying
      · exact absurd early (Int.not_lt.mpr late)
      · exact absurd tenth between
      · have passes := (accepts (blockCarrying checkpoint)).mpr
          ((calculates checkpoint).mpr ⟨rfl, possible⟩)
        refine ⟨⟨blockCarrying checkpoint, passes⟩, ?_⟩
        intro value after block calculated carries
        exact (accepts block).mpr ⟨after, by rw [calculated, carries]⟩
  · have accepts : ∀ block, ctx.accepts store accumulators nHeight block ↔ _ :=
      fun block => accepts_iff_of_not_tenth onChain quiet (by omega) unchecked tenth
    have goesOn : ctx.NotHalted store accumulators nHeight := by
      refine ⟨⟨blockCarrying checkpoint, (accepts _).mpr rfl⟩, ?_⟩
      intro value after block calculated carries
      rw [calculateAccumulatorCheckpoint_of_not_tenth onChain quiet (by omega) late tenth]
        at calculated
      cases calculated
      exact (accepts block).mpr carries
    exact iff_of_true goesOn (Or.inr (Or.inr (Or.inl tenth)))

/-- A chain of the main network with nothing but empty blocks. -/
def quietContext (length : Nat) : AccumulatorContext where
  params := CChainParams.main
  lib := Libzerocoin.plain
  chainActive := List.replicate length ⟨0, some (blockCarrying 0)⟩
  fVerifyingBlocks := false
  shutdownRequested := false
  validOutPoint _ := true
  mapCheckpoints := []

theorem quietContext_quiet (length : Nat) : QuietChain (quietContext length) 0 where
  noMints := by
    intro entry member block read tx inBlock
    obtain ⟨-, rfl⟩ := List.mem_replicate.mp member
    cases read
    exact absurd inBlock List.not_mem_nil
  sameCheckpoint := by
    intro entry member
    obtain ⟨-, rfl⟩ := List.mem_replicate.mp member
    rfl

theorem quietContext_onChain (length : Nat) :
    (length : Int) ≤ (quietContext length).chainActive.length := by
  simp [quietContext]

theorem quietContext_canRead {length : Nat} {height : Int} (bound : height.toNat < length) :
    (quietContext length).canRead height :=
  ⟨blockCarrying 0, by simp [quietContext, bound]⟩

/-- An empty database. -/
def emptyStore : AccumulatorStore where
  zerocoinDB _ := none
  mapAccumulatorValues _ := none

/-- At a height divisible by ten that is past both starts. -/
theorem notHalted_after_both_starts :
    (quietContext 100000010).NotHalted emptyStore (AccumulatorMap.reset Libzerocoin.plain false)
      100000010 := by
  have onChain := quietContext_onChain 100000010
  refine (notHalted_iff _ _ _ 0 _ rfl onChain (quietContext_quiet _)).mpr ?_
  refine Or.inr (Or.inr (Or.inr ⟨by decide, rfl, Or.inl rfl, ?_⟩))
  intro height above below _
  exact quietContext_canRead (by omega)

/-- The first height at which the rule is applied. -/
theorem halted_at_second_version :
    ¬ ∀ (ctx : AccumulatorContext) (store : AccumulatorStore) (accumulators : AccumulatorMap)
      (checkpoint : Uint256) (nHeight : Int), ctx.params = CChainParams.main →
      nHeight ≤ ctx.chainActive.length → QuietChain ctx checkpoint →
      ctx.NotHalted store accumulators nHeight := by
  intro goesOn
  have onChain : 1153160 ≤ ((quietContext 1153160).chainActive.length : Int) :=
    quietContext_onChain 1153160
  have quiet := quietContext_quiet 1153160
  obtain ⟨⟨block, passes⟩, -⟩ := goesOn (quietContext 1153160) emptyStore
    (AccumulatorMap.reset Libzerocoin.plain false) 0 1153160 rfl onChain quiet
  have calculated := (accepts_iff_of_tenth (by decide) (by decide)).mp passes
  rw [calculateAccumulatorCheckpoint_eq_ok_iff rfl onChain quiet (by decide) (by decide)]
    at calculated
  exact absurd calculated.2.active (by decide)

end GiantCore
