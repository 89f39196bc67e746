import GiantCore.Coins.Coins
import GiantCore.Validation.BlockTransactions
import GiantCore.Validation.Headers
import GiantCore.Zerocoin.Accumulators

/-! # Accepting blocks

`AcceptBlock` of `main.cpp`, from the lookup of the parent to the write of the
block, with `ContextualCheckBlock`, `ContextualCheckZerocoinStake` and the walk
along a fork that looks for a stake that is spent there.

A block is stored if its difficulty is the required one and, for a
proof-of-stake block, its kernel is checked. The hash of a proof-of-work block is
compared with its target only by `CheckProofOfWork`, which the parameter
`fSkipProofOfWorkCheck` turns off on the main network.
-/

namespace GiantCore

open CValidationState

/-- Why a block is not stored. -/
inductive AcceptFailure where
  /-- The call returns false. -/
  | refused (state : CValidationState)
  /-- The code fails an assertion or reads what is not there. -/
  | undefined
  deriving DecidableEq, Repr

/-- How a block is accepted. -/
inductive AcceptOutcome where
  /-- Its parent is reconsidered, and the block itself is not looked at. -/
  | reconsidered
  /-- The node has the block already. -/
  | known
  /-- The block is written to disk. -/
  | stored
  deriving DecidableEq, Repr

/-- The kernel input of a stake. -/
structure CStakeInput where
  isZGIC : Bool
  /-- The height of `GetIndexFrom`. -/
  indexFrom : Option Int
  value : CAmount
  checksum : UInt32
  deriving DecidableEq, Repr

/-- What `AcceptBlock` reads besides the tree. -/
structure AcceptContext where
  validation : ValidationContext
  headers : HeaderContext
  sameNode : headers.node = validation.node
  budget : CBudgetManager
  payments : CMasternodePayments
  /-- The state that the payee check works on. -/
  budgetState : BudgetState
  /-- Whether the parent is valid after it was reconsidered. -/
  reconsiderBlock : IndexNode → Bool
  /-- `CheckProofOfStake`: the hash of the proof, and the stake unless it is null. -/
  checkProofOfStake : CBlock → Option (Uint256 × Option CStakeInput)
  /-- The checkpoint of the active chain at a height. -/
  checkpointAt : Int → Option Uint256
  /-- `chainActive.Contains`, by hash. -/
  chainContains : Uint256 → Bool
  /-- `ReadBlockFromDisk`, by hash. -/
  readBlockFromDisk : Uint256 → Option CBlock
  /-- `pcoinsTip->AccessCoins`. -/
  accessCoins : Uint256 → Option CCoins
  /-- `FindBlockPos`, `WriteBlockToDisk` and `ReceivedBlockTransactions` succeed. -/
  canWrite : CBlock → Bool

section

variable (ctx : AcceptContext) (tree : BlockTree) (block : CBlock) (state : CValidationState)

/-- A rule of the source, or a failure that it records. -/
def acceptRule {α : Type} (rule : Except CValidationState α) : Except AcceptFailure α :=
  rule.mapError .refused

/-- `LOCKTIME_THRESHOLD`. -/
def locktimeThreshold : Nat := 500000000

/-- `IsFinalTx`. -/
def isFinalTx (node : NodeContext) (tx : CTransaction) (nBlockHeight nBlockTime : Int) : Bool :=
  let nBlockHeight := if nBlockHeight = 0 then node.height else nBlockHeight
  let nBlockTime := if nBlockTime = 0 then node.adjustedTime else nBlockTime
  let nLockTime := tx.nLockTime.toNat
  if nLockTime = 0 then true
  else if (nLockTime : Int) < (if nLockTime < locktimeThreshold then nBlockHeight else nBlockTime)
    then true
  else tx.vin.all fun txin => txin.nSequence == 0xffffffff

/-- `ContextualCheckBlock`: transactions are final, and the coinbase begins with
the height once the network has upgraded. -/
def contextualCheckBlock (pindexPrev : Option IndexNode) : Except CValidationState Unit := do
  let nHeight := pindexPrev.elim 0 fun prev => prev.header.nHeight + 1
  require (block.vtx.all fun tx => isFinalTx ctx.validation.node tx nHeight block.nTime)
    (state.doS 10 rejectInvalid "bad-txns-nonfinal")
  let params := ctx.validation.node.params
  let upgraded := pindexPrev.any fun prev =>
    prev.isSuperMajority params.nToCheckBlockUpgradeMajority 2 params.nEnforceBlockUpgradeMajority
  require (!(decide (block.nVersion ≥ 2) && upgraded &&
      !(block.vtx.head?.bind fun tx => tx.vin.head?).any fun txin =>
        (CScript.pushInt64 nHeight).isPrefixOf txin.scriptSig))
    (state.doS 100 rejectInvalid "bad-cb-height")

/-- `ContextualCheckZerocoinStake`. -/
def contextualCheckZerocoinStake (nHeight : Int) (stake : CStakeInput) :
    Except AcceptFailure Bool := do
  let params := ctx.validation.node.params
  if nHeight < params.nBlockZerocoinV2 then return false
  if !stake.isZGIC then return false
  let some indexFrom := stake.indexFrom | return false
  if ctx.validation.node.height - indexFrom < params.nZerocoinRequiredStakeDepth then return false
  let some nCheckpoint200 := ctx.checkpointAt (nHeight - params.nZerocoinRequiredStakeDepth)
    | throw .undefined
  return parseChecksum nCheckpoint200 (.ofAmount stake.value) == stake.checksum

/-- The kernel of a proof-of-stake block. -/
def checkStake (pindexPrev : Option IndexNode) : Except AcceptFailure Unit :=
  if !block.isProofOfStake then .ok ()
  else match ctx.checkProofOfStake block with
    | none => .error (.refused (state.doS 100))
    | some (_, none) => .error (.refused state)
    | some (_, some stake) =>
        if !stake.isZGIC then .ok ()
        else match pindexPrev with
          | none => .error .undefined
          | some pindexPrev => do
              let valid ← contextualCheckZerocoinStake ctx pindexPrev.header.nHeight stake
              acceptRule (require valid (state.doS 100))

/-- The proof of a block on its parent: the required difficulty, and the kernel. -/
def checkProof (pindexPrev : Option IndexNode) : Except AcceptFailure Unit := do
  acceptRule (require (block.hash == ctx.headers.hashGenesisBlock ||
    checkWork ctx.headers block pindexPrev) state)
  checkStake ctx block state pindexPrev

/-! ## The stake of a block -/

/-- The serial of a spend, or an exception. -/
def readSerial (txin : CTxIn) : Except CValidationState Libzerocoin.CoinSpend :=
  (txInToZerocoinSpend ctx.validation.lib ctx.validation.useModulusV1 txin).elim
    (.error state.throwing) .ok

/-- One input of the block, with the serials so far: no serial comes twice once
zerocoin has started, and only the coinstake spends its coins. -/
def checkInBlock (nHeight : Int) (gicInputs : List CTxIn) (tx : CTransaction)
    (inBlockSerials : List CBigNum) (txin : CTxIn) :
    Except CValidationState (List CBigNum) := do
  let inBlockSerials ←
    if nHeight ≥ ctx.validation.node.params.nZerocoinStartHeight ∧
        txin.isZerocoinSpend = true then do
      let spend ← readSerial ctx state txin
      require (!inBlockSerials.contains spend.coinSerialNumber) (state.doS 100)
      return inBlockSerials ++ [spend.coinSerialNumber]
    else .ok inBlockSerials
  require (tx.isCoinStake || !gicInputs.any fun gicIn => gicIn.prevout == txin.prevout) state
  return inBlockSerials

/-- All inputs of the block. -/
def checkInBlocks (nHeight : Int) (gicInputs : List CTxIn) :
    Except CValidationState (List CBigNum) :=
  block.vtx.foldlM (fun inBlockSerials tx =>
    tx.vin.foldlM (checkInBlock ctx state nHeight gicInputs tx) inBlockSerials) []

/-- An input of a block on the fork against one input of the stake. The serial of a
spend is recorded once for each coin the stake spends, and so not at all by a
stake that spends no coin. -/
def scanInput (txin : CTxIn) (vBlockSerials : List CBigNum) (stakeIn : CTxIn) :
    Except CValidationState (List CBigNum) := do
  require (!(stakeIn.prevout == txin.prevout)) (state.doS 100)
  if txin.isZerocoinSpend then do
    let spend ← readSerial ctx state txin
    return vBlockSerials ++ [spend.coinSerialNumber]
  else .ok vBlockSerials

/-- A block on the fork. -/
def scanForkBlock (gicInputs : List CTxIn) (vBlockSerials : List CBigNum) (bl : CBlock) :
    Except CValidationState (List CBigNum) :=
  bl.vtx.foldlM (fun vBlockSerials tx =>
    tx.vin.foldlM (fun vBlockSerials txin =>
      gicInputs.foldlM (scanInput ctx state txin) vBlockSerials) vBlockSerials) vBlockSerials

/-- The walk back along a fork, from a block index and the block there to the split:
the serials on the way and the height of the split. -/
def walkFork (gicInputs : List CTxIn) : List HeaderIndex → CBlock → Int → List CBigNum →
    Except AcceptFailure (List CBigNum × Int)
  | [], _, _, _ => .error .undefined
  | prev :: ancestors, bl, readBlock, vBlockSerials =>
      if ctx.chainContains prev.hash then .ok (vBlockSerials, prev.nHeight)
      else do
        acceptRule (require
          (!decide (readBlock + 1 = ctx.validation.node.params.nMaxReorganizationDepth)) state)
        let vBlockSerials ← acceptRule (scanForkBlock ctx state gicInputs vBlockSerials bl)
        match ancestors with
        | [] => .error .undefined
        | pprev :: _ =>
            match ctx.readBlockFromDisk pprev.hash with
            | none => .error (.refused state)
            | some bl => walkFork gicInputs ancestors bl (readBlock + 1) vBlockSerials

/-- A zerocoin that a block on a fork stakes: its serial is neither on the fork nor
before the split, and the spend is valid and verifies. -/
def checkForkSpend (stakeTx : CTransaction) (pindex : IndexNode) (vBlockSerials : List CBigNum)
    (splitHeight : Int) (zGICInput : CTxIn) : Except CValidationState Unit := do
  let params := ctx.validation.node.params
  let spend ← readSerial ctx state zGICInput
  require (!vBlockSerials.contains spend.coinSerialNumber) (state.doS 100)
  require (!(ctx.validation.isSerialInBlockchain spend.coinSerialNumber).any fun nHeightTx =>
    decide (nHeightTx ≤ splitHeight)) (state.doS 100)
  require (contextualCheckZerocoinSpendNoSerialCheck ctx.validation stakeTx spend
    pindex.header.nHeight) (state.doS 100 rejectInvalid "bad-txns-invalid-zgic")
  checkAccumulated ctx.validation
    (params.isBlockBetweenFakeSerialAttackRange pindex.header.nHeight) spend state

/-- The parent of the block is not the tip. -/
def AcceptContext.isBlockFromFork (pindexPrev : Option IndexNode) : Bool :=
  pindexPrev.any fun prev =>
    ctx.validation.node.tip.all fun tip => tip.hash != prev.header.hash

/-- The stake of a block on a fork. -/
def checkFork (stakeTx : CTransaction) (pindexPrev pindex : IndexNode) :
    Except AcceptFailure Unit :=
  let gicInputs := stakeTx.vin.filter fun txin => !txin.isZerocoinSpend
  let zGICInputs := stakeTx.vin.filter CTxIn.isZerocoinSpend
  match ctx.readBlockFromDisk pindexPrev.header.hash with
  | none => .error (.refused state)
  | some bl => do
      let (vBlockSerials, splitHeight) ← walkFork ctx state gicInputs pindexPrev.branch bl 0 []
      acceptRule (zGICInputs.forM
        (checkForkSpend ctx state stakeTx pindex vBlockSerials splitHeight))

/-- The coins of a stake are on the main chain, unless the block is on a fork. -/
def checkStakeCoins (stakeTx : CTransaction) (isBlockFromFork : Bool) (pindex : IndexNode) :
    Except CValidationState Unit :=
  if !stakeTx.hasZerocoinSpendInputs then
    stakeTx.vin.forM fun txin =>
      match ctx.accessCoins txin.prevout.hash with
      | none => require isBlockFromFork state
      | some coin => require (coin.isAvailable txin.prevout.n.toNat || isBlockFromFork) state
  else if isBlockFromFork then .ok ()
  else (stakeTx.vin.filter CTxIn.isZerocoinSpend).forM fun zGICInput => do
    let spend ← readSerial ctx state zGICInput
    require (contextualCheckZerocoinSpend ctx.validation stakeTx spend pindex.header.nHeight)
      (state.doS 100 rejectInvalid "bad-txns-invalid-zgic")

/-- The checks on the stake of a proof-of-stake block that is about to be stored. -/
def checkStakeSpends (pindexPrev : Option IndexNode) (pindex : IndexNode) :
    Except AcceptFailure Unit :=
  if !block.isProofOfStake then .ok ()
  else match block.vtx[1]? with
    | none => .error .undefined
    | some stakeTx => do
        let gicInputs := stakeTx.vin.filter fun txin => !txin.isZerocoinSpend
        let _ ← acceptRule (checkInBlocks ctx block state pindex.header.nHeight gicInputs)
        match pindexPrev with
        | some prev =>
            if ctx.isBlockFromFork pindexPrev then checkFork ctx state stakeTx prev pindex
            else .ok ()
        | none => .ok ()
        acceptRule (checkStakeCoins ctx state stakeTx (ctx.isBlockFromFork pindexPrev) pindex)

/-! ## The block -/

/-- The parent of a block: none for the first block, and nothing at all where it was
reconsidered and the call returns. -/
def findParent : Except AcceptFailure (Option (Option IndexNode)) :=
  if block.hash = ctx.headers.hashGenesisBlock then .ok (some none)
  else match tree.mapBlockIndex block.hashPrevBlock with
    | none => .error (.refused (state.doS 0 0 "bad-prevblk"))
    | some pindexPrev =>
        if !tree.failed block.hashPrevBlock then .ok (some (some pindexPrev))
        else if ctx.headers.matchesCheckpoint pindexPrev.header.nHeight block.hashPrevBlock true &&
            ctx.reconsiderBlock pindexPrev then .ok none
        else .error (.refused (state.doS 100 rejectInvalid "bad-prevblk"))

/-- `CheckBlock`, unless the caller has done it, and `ContextualCheckBlock`. -/
def checkContents (fAlreadyCheckedBlock : Bool) (pindex : IndexNode) :
    Except AcceptFailure Unit := do
  if fAlreadyCheckedBlock then .ok ()
  else match checkBlock ctx.validation block ctx.budget ctx.payments true state ctx.budgetState with
    | none => .error .undefined
    | some checked => acceptRule (checked.map fun _ => ())
  acceptRule (contextualCheckBlock ctx block state pindex.pprev)

/-- A block whose contents are refused has failed, unless the block that was sent
may be corrupt. -/
def BlockTree.afterRefusal (hash : Uint256) : AcceptFailure → BlockTree
  | .undefined => tree
  | .refused broken =>
      if broken.thrown || broken.corruptionPossible then tree
      else { tree with failed := fun other => if other = hash then true else tree.failed other }

/-- `AcceptBlock`, with the tree after it. -/
def acceptBlock (fAlreadyCheckedBlock : Bool) :
    BlockTree × Except AcceptFailure AcceptOutcome :=
  match findParent ctx tree block state with
  | .error failure => (tree, .error failure)
  | .ok none => (tree, .ok .reconsidered)
  | .ok (some pindexPrev) =>
      match checkProof ctx block state pindexPrev with
      | .error failure => (tree, .error failure)
      | .ok () =>
          match acceptBlockHeader ctx.headers tree block state with
          | none => (tree, .error .undefined)
          | some (.error broken) => (tree, .error (.refused broken))
          | some (.ok (tree, pindex)) =>
              if tree.haveData block.hash then (tree, .ok .known)
              else match checkContents ctx block state fAlreadyCheckedBlock pindex with
                | .error failure => (tree.afterRefusal block.hash failure, .error failure)
                | .ok () =>
                    match checkStakeSpends ctx block state pindexPrev pindex with
                    | .error failure => (tree, .error failure)
                    | .ok () =>
                        if ctx.canWrite block then
                          ({ tree with haveData := fun hash =>
                              if hash = block.hash then true else tree.haveData hash },
                            .ok .stored)
                        else (tree, .error (.refused state))

end

/-! ## What is stored -/

section

variable {ctx : AcceptContext} {tree : BlockTree} {block : CBlock} {state : CValidationState}
  {fAlreadyCheckedBlock : Bool}

/-- What is known of a block that is stored. -/
theorem acceptBlock_stored
    (stored : (acceptBlock ctx tree block state fAlreadyCheckedBlock).2 = .ok .stored) :
    ∃ pindexPrev after pindex, findParent ctx tree block state = .ok (some pindexPrev) ∧
      checkProof ctx block state pindexPrev = .ok () ∧
      acceptBlockHeader ctx.headers tree block state = some (.ok (after, pindex)) ∧
      after.haveData block.hash = false ∧
      checkContents ctx block state fAlreadyCheckedBlock pindex = .ok () ∧
      checkStakeSpends ctx block state pindexPrev pindex = .ok () ∧ ctx.canWrite block = true := by
  unfold acceptBlock at stored
  split at stored
  · cases stored
  · cases stored
  · rename_i pindexPrev parent
    split at stored
    · cases stored
    · rename_i proof
      split at stored
      · cases stored
      · cases stored
      · rename_i after pindex header
        split at stored
        · cases stored
        · rename_i fresh
          split at stored
          · cases stored
          · rename_i contents
            split at stored
            · cases stored
            · rename_i spends
              split at stored
              · rename_i writes
                exact ⟨pindexPrev, after, pindex, parent, proof, header, by simpa using fresh,
                  contents, spends, writes⟩
              · cases stored

/-- A parent that is found is the block index of the previous hash. -/
theorem findParent_eq_ok {pindexPrev : Option IndexNode}
    (found : findParent ctx tree block state = .ok (some pindexPrev)) :
    block.hash = ctx.headers.hashGenesisBlock ∨
      tree.mapBlockIndex block.hashPrevBlock = pindexPrev := by
  unfold findParent at found
  split at found
  · rename_i genesis
    exact Or.inl genesis
  · split at found
    · cases found
    · rename_i prev lookup
      split at found
      · cases found
        exact Or.inr lookup
      · split at found
        · cases found
        · cases found

/-- The kernel of a proof-of-stake block was checked. -/
theorem exists_stake_of_checkStake {pindexPrev : Option IndexNode}
    (checked : checkStake ctx block state pindexPrev = .ok ())
    (stakes : block.isProofOfStake = true) :
    ∃ proof stake, ctx.checkProofOfStake block = some (proof, some stake) := by
  unfold checkStake at checked
  rw [stakes] at checked
  cases kernel : ctx.checkProofOfStake block with
  | none => simp [kernel] at checked
  | some result =>
      obtain ⟨proof, stake⟩ := result
      cases stake with
      | none => simp [kernel] at checked
      | some stake => exact ⟨proof, stake, rfl⟩

/-- With the test of the work turned off, no hash is refused. -/
theorem checkProofOfWork_of_skipped {node : NodeContext}
    (skipped : node.params.fSkipProofOfWorkCheck = true) (hash : Uint256) (nBits : UInt32) :
    checkProofOfWork node hash nBits = true := by
  rw [checkProofOfWork, if_pos skipped]

end

/-- **The proof of a stored block.** On the main network a block that is stored is the
first one or has the difficulty that its parent requires; and it is a
proof-of-stake block whose kernel was checked, or a proof-of-work block, whose
hash may be any. -/
theorem proof_of_stored (ctx : AcceptContext) (tree : BlockTree) (block : CBlock)
    (state : CValidationState) (fAlreadyCheckedBlock : Bool)
    (main : ctx.validation.node.params = CChainParams.main)
    (stored : (acceptBlock ctx tree block state fAlreadyCheckedBlock).2 = .ok .stored) :
    (block.hash = ctx.headers.hashGenesisBlock ∨
      ∃ pindexPrev, tree.mapBlockIndex block.hashPrevBlock = some pindexPrev ∧
        checkWork ctx.headers block (some pindexPrev) = true) ∧
    ((block.isProofOfStake = true ∧
        ∃ proof stake, ctx.checkProofOfStake block = some (proof, some stake)) ∨
      (block.isProofOfWork = true ∧
        ∀ hash, checkProofOfWork ctx.validation.node hash block.nBits = true)) := by
  obtain ⟨pindexPrev, after, pindex, parent, proof, -⟩ := acceptBlock_stored stored
  rw [checkProof, Foundation.Checks.bind_eq_ok] at proof
  obtain ⟨_, work, stake⟩ := proof
  rw [acceptRule, Foundation.Checks.mapError_eq_ok, require_eq_ok, Bool.or_eq_true,
    beq_iff_eq] at work
  constructor
  · rcases work with genesis | work
    · exact Or.inl genesis
    · rcases findParent_eq_ok parent with genesis | lookup
      · exact Or.inl genesis
      · cases pindexPrev with
        | none => cases work
        | some pindexPrev => exact Or.inr ⟨pindexPrev, lookup, work⟩
  · cases shape : block.isProofOfStake with
    | true => exact Or.inl ⟨rfl, exists_stake_of_checkStake stake shape⟩
    | false =>
        refine Or.inr ⟨by rw [CBlock.isProofOfWork, shape]; rfl, ?_⟩
        intro hash
        exact checkProofOfWork_of_skipped (by rw [main]; rfl) hash block.nBits

/-- The node of the examples, which has no proof of stake and writes every block. -/
def AcceptContext.mainAccept (tipHeight : Int) : AcceptContext where
  validation := ValidationContext.mainContext tipHeight
  headers := HeaderContext.mainHeaders tipHeight
  sameNode := rfl
  budget := {}
  payments := {}
  budgetState := { mnodeman := ⟨[]⟩ }
  reconsiderBlock _ := false
  checkProofOfStake _ := none
  checkpointAt _ := none
  chainContains _ := true
  readBlockFromDisk _ := none
  accessCoins _ := none
  canWrite _ := true

/-- A block on the first one with the largest of all hashes. -/
def unprovedBlock : CBlock := { blockOn 0 [plainCoinBase 0] with hash := ~~~(0 : Uint256) }

theorem proof_of_stored_unprovedBlock :
    checkWork (HeaderContext.mainHeaders 0) unprovedBlock (some genesisNode) = true ∧
      unprovedBlock.isProofOfWork = true := by
  have proof := proof_of_stored (AcceptContext.mainAccept 0) (BlockTree.single genesisNode)
    unprovedBlock {} false rfl (by decide)
  obtain ⟨genesis | ⟨pindexPrev, lookup, work⟩, ⟨stakes, -⟩ | ⟨shape, -⟩⟩ := proof
  · exact absurd genesis (by decide)
  · exact absurd genesis (by decide)
  · exact absurd stakes (by decide)
  · cases lookup
    exact ⟨work, shape⟩

/-- The block is stored, has no stake and misses its target. -/
theorem not_proof_of_stored_unprovedBlock :
    ¬ ∀ (ctx : AcceptContext) (tree : BlockTree) (block : CBlock) (state : CValidationState)
      (fAlreadyCheckedBlock : Bool), ctx.validation.node.params = CChainParams.main →
      (acceptBlock ctx tree block state fAlreadyCheckedBlock).2 = .ok .stored →
      (block.isProofOfStake = true ∧
        ∃ proof stake, ctx.checkProofOfStake block = some (proof, some stake)) ∨
      block.hash ≤ (Uint256.setCompact block.nBits).target := by
  intro proved
  have proof := proved (AcceptContext.mainAccept 0) (BlockTree.single genesisNode) unprovedBlock {}
    false rfl (by decide)
  rcases proof with ⟨stakes, -⟩ | meets
  · exact absurd stakes (by decide)
  · exact absurd meets (by decide)

end GiantCore
