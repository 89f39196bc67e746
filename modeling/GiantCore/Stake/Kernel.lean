import GiantCore.Stake.Modifier
import GiantCore.Validation.AcceptBlock

/-! # The kernel of a stake

`CheckProofOfStake` of `kernel.cpp` and the rules of `Stake` on the age of a kernel, with the stake
inputs of `stakeinput.cpp` and the lookup of the transaction that is staked. The check of a block
that was received looks the staked output up again, but it neither compares the index with the
outputs that are there, nor the times of the two blocks. What keeps the rules of the staker there is
only the chain below the block (`keepsStakeRules_of_settled`).
-/

namespace GiantCore

open CValidationState

/-- Why the kernel of a block is not accepted. -/
inductive KernelFailure where
  /-- The call returns false. -/
  | refused
  /-- An exception leaves the function. -/
  | thrown
  /-- A vector is read past its end. -/
  | outOfRange
  deriving DecidableEq, Repr

/-- What makes a stake unique, as it is hashed. -/
inductive StakeUniqueness where
  | outpoint (nPosition : UInt32) (txid : Uint256)
  | serial (hashSerial : Uint256)
  deriving DecidableEq, Repr

/-- What the check of a kernel reads. -/
structure KernelContext where
  validation : ValidationContext
  mapBlockIndex : Uint256 → Option StakeIndex
  chainActive : CChain
  /-- `mempool.lookup`. -/
  mempoolLookup : Uint256 → Option CTransaction
  fTxIndex : Bool
  /-- `ReadTxIndex` and the file behind it: the transaction and the hash of its block,
  where they can be read. -/
  readTxIndex : Uint256 → Option (CTransaction × Uint256)
  /-- `pcoinsTip->AccessCoins`. -/
  accessCoins : Uint256 → Option CCoins
  /-- `ReadBlockFromDisk`, by hash. -/
  readBlockFromDisk : Uint256 → Option CBlock
  /-- `VerifyScript` under the standard flags, for an input of a transaction. -/
  verifyScript : CTransaction → Nat → CScript → CScript → Bool
  /-- The hash of a serial number. -/
  hashSerial : CBigNum → Uint256
  /-- The hash of a modifier, the time of the block that is staked from, what makes the
  stake unique and the time of the stake. -/
  hashStake : UInt64 → Int → StakeUniqueness → Int → Uint256

/-- `vector::operator[]`. -/
def readAt {α : Type} (vector : List α) (index : Nat) : Except KernelFailure α :=
  vector[index]?.elim (.error .outOfRange) .ok

section

variable (ctx : KernelContext)

/-- `GetTransaction` with `fAllowSlow`: the transaction and the hash of its block, which is
zero for a transaction of the memory pool. -/
def KernelContext.getTransaction (hash : Uint256) : Option (CTransaction × Uint256) :=
  match ctx.mempoolLookup hash with
  | some txOut => some (txOut, 0)
  | none =>
      if ctx.fTxIndex then
        (ctx.readTxIndex hash).filter fun found => found.1.hash == hash
      else do
        let coins ← ctx.accessCoins hash
        if 0 < coins.nHeight then do
          let pindexSlow ← ctx.chainActive.vChain[coins.nHeight.toNat]?
          let block ← ctx.readBlockFromDisk pindexSlow.hash
          let txOut ← block.vtx.find? fun tx => tx.hash == hash
          return (txOut, pindexSlow.hash)
        else none

/-- `CStakeInput`, by its two classes. -/
inductive StakeInput where
  /-- `CGICStake`. -/
  | gic (txFrom : CTransaction) (nPosition : UInt32)
  /-- `CZGICStake` of a spend. -/
  | zgic (nChecksum : UInt32) (denom : CoinDenomination) (hashSerial : Uint256)
  deriving DecidableEq, Repr

/-- The loop of `GetChecksumHeight`: from the first block whose height ends in zero it goes
in steps of ten. -/
def walkToChecksum (nChecksum : UInt32) (denomination : CoinDenomination) :
    List StakeIndex → Int
  | [] => 0
  | pindex :: later =>
      if parseChecksum pindex.nAccumulatorCheckpoint denomination = nChecksum then pindex.nHeight
      else if pindex.nHeight % 10 = 0 then
        walkToChecksum nChecksum denomination (later.drop 9)
      else walkToChecksum nChecksum denomination later
termination_by later => later.length
decreasing_by all_goals simp +arith

/-- `GetChecksumHeight`. -/
def KernelContext.getChecksumHeight (nChecksum : UInt32) (denomination : CoinDenomination) : Int :=
  walkToChecksum nChecksum denomination
    (ctx.chainActive.vChain.drop ctx.validation.node.params.nZerocoinStartHeight.toNat)

namespace StakeInput

/-- `GetIndexFrom`: the block of the staked coin if it is on the active chain, or the block
where the checksum of a spend appears first. -/
def getIndexFrom : StakeInput → Option StakeIndex
  | gic txFrom _ => do
      let (_, hashBlock) ← ctx.getTransaction txFrom.hash
      let pindex ← ctx.mapBlockIndex hashBlock
      if ctx.chainActive.contains pindex then some pindex else none
  | zgic nChecksum denom _ =>
      let nHeightChecksum := ctx.getChecksumHeight nChecksum denom
      if nHeightChecksum < ctx.validation.node.params.nZerocoinStartHeight then none
      else ctx.chainActive.vChain[nHeightChecksum.toNat]?

def getValue : StakeInput → Except KernelFailure CAmount
  | gic txFrom nPosition => (readAt txFrom.vout nPosition.toNat).map CTxOut.nValue
  | zgic _ denom _ => .ok (denom.toInt * COIN)

/-- `GetModifier`, once the block that is staked from is known. -/
def getModifier (pindexFrom : StakeIndex) : StakeInput → Option UInt64
  | gic .. => (getKernelStakeModifier ctx.validation.node.params.networkID ctx.mapBlockIndex
      ctx.chainActive pindexFrom.hash).map KernelModifier.nStakeModifier
  | zgic .. => zGICStakeModifier ctx.validation.node.params.networkID ctx.chainActive pindexFrom

def getUniqueness : StakeInput → StakeUniqueness
  | gic txFrom nPosition => .outpoint nPosition txFrom.hash
  | zgic _ _ hashSerial => .serial hashSerial

/-- What `AcceptBlock` reads of a stake. -/
def toInput (stake : StakeInput) : CStakeInput where
  isZGIC := match stake with
    | gic .. => false
    | zgic .. => true
  indexFrom := (stake.getIndexFrom ctx).map fun pindex => (pindex.nHeight : Int)
  value := stake.getValue.toOption.getD 0
  checksum := match stake with
    | gic .. => 0
    | zgic nChecksum _ _ => nChecksum

end StakeInput

/-- `stakeTargetHit`: the weight of a stake is its value, as an unsigned number. -/
def stakeTargetHit (hashProofOfStake : Uint256) (nValueIn : CAmount)
    (bnTargetPerCoinDay : Uint256) : Bool :=
  let bnCoinDayWeight : Uint256 := (BitVec.ofInt 64 nValueIn).setWidth 256 / 100
  decide (hashProofOfStake < bnCoinDayWeight * bnTargetPerCoinDay)

/-- `CheckStake`, with the hash of the proof. -/
def checkStakeHash (uniqueness : StakeUniqueness) (nValueIn : CAmount) (nStakeModifier : UInt64)
    (bnTarget : Uint256) (nTimeBlockFrom nTimeTx : Int) : Uint256 × Bool :=
  let hashProofOfStake := ctx.hashStake nStakeModifier nTimeBlockFrom uniqueness nTimeTx
  (hashProofOfStake, stakeTargetHit hashProofOfStake nValueIn bnTarget)

/-- The stake that the kernel input of a coinstake makes. -/
def stakeOfKernel (tx : CTransaction) (txin : CTxIn) : Except KernelFailure StakeInput :=
  if txin.isZerocoinSpend then
    match txInToZerocoinSpend ctx.validation.lib ctx.validation.useModulusV1 txin with
    | none => .error .thrown
    | some spend =>
        if spend.isStake then
          .ok (.zgic spend.accumulatorChecksum spend.denomination
            (ctx.hashSerial spend.coinSerialNumber))
        else .error .refused
  else match ctx.getTransaction txin.prevout.hash with
    | none => .error .refused
    | some (txPrev, _) => do
        let out ← readAt txPrev.vout txin.prevout.n.toNat
        if ctx.verifyScript tx 0 txin.scriptSig out.scriptPubKey then
          .ok (.gic txPrev txin.prevout.n)
        else .error .refused

/-- The end of `CheckProofOfStake`, which hashes a stake. -/
def checkStakeOfBlock (block : CBlock) (stake : StakeInput) :
    Except KernelFailure (Uint256 × StakeInput) :=
  match stake.getIndexFrom ctx with
  | none => .error .refused
  | some pindex =>
      match ctx.readBlockFromDisk pindex.hash with
      | none => .error .refused
      | some blockprev =>
          match stake.getModifier ctx pindex with
          | none => .error .refused
          | some nStakeModifier => do
              let nValueIn ← stake.getValue
              let (hashProofOfStake, hit) := checkStakeHash ctx stake.getUniqueness nValueIn
                nStakeModifier (Uint256.setCompact block.nBits).target blockprev.nTime block.nTime
              if hit then .ok (hashProofOfStake, stake) else .error .refused

/-- `CheckProofOfStake`, with the hash of the proof and the stake. -/
def checkProofOfStake (block : CBlock) : Except KernelFailure (Uint256 × StakeInput) := do
  let tx ← readAt block.vtx 1
  if !tx.isCoinStake then .error .refused
  else do
    let txin ← readAt tx.vin 0
    let stake ← stakeOfKernel ctx tx txin
    checkStakeOfBlock ctx block stake

end

/-- A node whose `AcceptBlock` checks kernels with `CheckProofOfStake`. A call that does not
return accepts no block. -/
structure StakingNode where
  accept : AcceptContext
  kernel : KernelContext
  sameValidation : kernel.validation = accept.validation
  sameCoins : kernel.accessCoins = accept.accessCoins
  sameDisk : kernel.readBlockFromDisk = accept.readBlockFromDisk
  sameChain : ∀ hash, accept.chainContains hash =
    kernel.chainActive.vChain.any fun pindex => pindex.hash == hash
  checks : ∀ block, accept.checkProofOfStake block =
    (checkProofOfStake kernel block).toOption.map fun checked =>
      (checked.1, some (checked.2.toInput kernel))

/-! ## The reads of the check -/

theorem readAt_eq_ok {α : Type} {vector : List α} {index : Nat} {value : α} :
    readAt vector index = .ok value ↔ vector[index]? = some value := by
  unfold readAt
  cases vector[index]? with
  | none => simp
  | some found => simp

theorem readAt_ne_outOfRange {α : Type} {vector : List α} {index : Nat} :
    readAt vector index ≠ .error .outOfRange ↔ index < vector.length := by
  unfold readAt
  cases found : vector[index]? with
  | none => simpa using found
  | some value => simpa using (List.getElem?_eq_some_iff.mp found).1

/-- A proof-of-stake block has a coinstake with an input. -/
theorem exists_kernel_of_isProofOfStake {block : CBlock} (stakes : block.isProofOfStake = true) :
    ∃ tx txin, block.vtx[1]? = some tx ∧ tx.isCoinStake = true ∧ tx.vin[0]? = some txin := by
  unfold CBlock.isProofOfStake at stakes
  split at stakes
  · rename_i first second rest shape
    have inputs := stakes
    unfold CTransaction.isCoinStake at inputs
    split at inputs
    · rename_i txin vin out next vout vinShape voutShape
      exact ⟨second, txin, by rw [shape]; rfl, stakes, by rw [vinShape]; rfl⟩
    · cases inputs
  · cases stakes

/-- The kernel input of a block is the first input of its coinstake. -/
def CBlock.kernelInput (block : CBlock) : Option CTxIn :=
  block.vtx[1]?.bind fun tx => tx.vin[0]?

section

variable {ctx : KernelContext} {block : CBlock}

/-- The check of a proof-of-stake block starts with the stake of its kernel. -/
theorem checkProofOfStake_eq {tx : CTransaction} {txin : CTxIn} (second : block.vtx[1]? = some tx)
    (coinstake : tx.isCoinStake = true) (first : tx.vin[0]? = some txin) :
    checkProofOfStake ctx block =
      (stakeOfKernel ctx tx txin >>= fun stake => checkStakeOfBlock ctx block stake) := by
  rw [checkProofOfStake, readAt_eq_ok.mpr second]
  change (if !tx.isCoinStake then _ else _) = _
  rw [coinstake, readAt_eq_ok.mpr first]
  rfl

/-- A stake whose value can be read is hashed without a read past an end. -/
theorem checkStakeOfBlock_ne_outOfRange {stake : StakeInput} {nValueIn : CAmount}
    (value : stake.getValue = .ok nValueIn) :
    checkStakeOfBlock ctx block stake ≠ .error .outOfRange := by
  unfold checkStakeOfBlock
  split
  · simp
  · split
    · simp
    · split
      · simp
      · rw [value]
        change (if _ then Except.ok _ else Except.error KernelFailure.refused) ≠ _
        split <;> simp

/-- A zerocoin kernel reads no transaction. -/
theorem checkSpendKernel_ne_outOfRange {tx : CTransaction} {txin : CTxIn}
    (spends : txin.isZerocoinSpend = true) :
    (stakeOfKernel ctx tx txin >>= fun stake => checkStakeOfBlock ctx block stake) ≠
      .error .outOfRange := by
  unfold stakeOfKernel
  rw [if_pos spends]
  split
  · simp [bind, Except.bind]
  · split
    · exact checkStakeOfBlock_ne_outOfRange rfl
    · simp [bind, Except.bind]

/-- An ordinary kernel is checked without a read past an end exactly when the output it
names is there, or its transaction is not found. -/
theorem checkCoinKernel_ne_outOfRange_iff {tx : CTransaction} {txin : CTxIn}
    (ordinary : txin.isZerocoinSpend = false) :
    (stakeOfKernel ctx tx txin >>= fun stake => checkStakeOfBlock ctx block stake) ≠
        .error .outOfRange ↔
      ∀ txPrev hashBlock, ctx.getTransaction txin.prevout.hash = some (txPrev, hashBlock) →
        txin.prevout.n.toNat < txPrev.vout.length := by
  unfold stakeOfKernel
  rw [if_neg (by simp [ordinary])]
  cases found : ctx.getTransaction txin.prevout.hash with
  | none => simp [bind, Except.bind]
  | some result =>
      obtain ⟨txPrev, hashBlock⟩ := result
      simp only [Option.some.injEq, Prod.mk.injEq, and_imp, forall_apply_eq_imp_iff,
        forall_eq']
      by_cases inRange : txin.prevout.n.toNat < txPrev.vout.length
      · have out := readAt_eq_ok.mpr (List.getElem?_eq_getElem inRange)
        have value : StakeInput.getValue (.gic txPrev txin.prevout.n) =
            .ok txPrev.vout[txin.prevout.n.toNat].nValue := by
          rw [StakeInput.getValue, out]
          rfl
        rw [out]
        refine iff_of_true ?_ inRange
        change ((if _ then Except.ok _ else Except.error KernelFailure.refused) >>= _) ≠ _
        split
        · exact checkStakeOfBlock_ne_outOfRange value
        · simp [bind, Except.bind]
      · have past : readAt txPrev.vout txin.prevout.n.toNat = .error .outOfRange := by
          by_contra inside
          exact inRange (readAt_ne_outOfRange.mp inside)
        rw [past]
        refine iff_of_false ?_ inRange
        simp [bind, Except.bind]

end

/-- **What can be staked**: an output whose transaction the node finds, in a block of the active
chain that it can read and whose modifier is known. -/
def StakingNode.CanStake (node : StakingNode) (prevout : COutPoint) (out : CTxOut)
    (blockFrom : CBlock) : Prop :=
  ∃ txPrev hashBlock pindexFrom nStakeModifier,
    node.kernel.getTransaction prevout.hash = some (txPrev, hashBlock) ∧
    txPrev.vout[prevout.n.toNat]? = some out ∧
    StakeInput.getIndexFrom node.kernel (.gic txPrev prevout.n) = some pindexFrom ∧
    node.accept.readBlockFromDisk pindexFrom.hash = some blockFrom ∧
    StakeInput.getModifier node.kernel pindexFrom (.gic txPrev prevout.n) = some nStakeModifier

/-- A block that is received reaches the check of its kernel: its parent is found, its
difficulty is the required one and it is a proof-of-stake block. -/
structure ReachesKernelCheck (ctx : AcceptContext) (tree : BlockTree) (block : CBlock)
    (state : CValidationState) : Prop where
  parent : ∃ pindexPrev, findParent ctx tree block state = .ok (some pindexPrev) ∧
    (block.hash = ctx.headers.hashGenesisBlock ∨ checkWork ctx.headers block pindexPrev = true)
  stakes : block.isProofOfStake = true

/-- **The reads of the stake check.** The check of a block that reaches it reads no vector
past its end if and only if the kernel is a zerocoin spend, or the transaction it names
is not found, or that transaction has the output it names. -/
theorem checkProofOfStake_ne_outOfRange_iff (node : StakingNode) (tree : BlockTree)
    (block : CBlock) (state : CValidationState)
    (reaches : ReachesKernelCheck node.accept tree block state) :
    checkProofOfStake node.kernel block ≠ .error .outOfRange ↔
      ∀ txin, block.kernelInput = some txin → txin.isZerocoinSpend = false →
        ∀ txPrev hashBlock,
          node.kernel.getTransaction txin.prevout.hash = some (txPrev, hashBlock) →
          txin.prevout.n.toNat < txPrev.vout.length := by
  obtain ⟨tx, txin, second, coinstake, first⟩ := exists_kernel_of_isProofOfStake reaches.stakes
  have kernel : block.kernelInput = some txin := by
    rw [CBlock.kernelInput, second]
    exact first
  rw [checkProofOfStake_eq second coinstake first, kernel]
  simp only [Option.some.injEq, forall_eq']
  cases spends : txin.isZerocoinSpend with
  | true => simpa using checkSpendKernel_ne_outOfRange spends
  | false => simpa using checkCoinKernel_ne_outOfRange_iff spends

/-- Four blocks of the main network. The second makes the coin 400, and the fourth comes
more than a selection interval after it. -/
def BlockChain.withCoin : BlockChain where
  blocks :=
    [⟨0, 0xffff, 0, 1599990000, 0, [plainCoinBase 0], 0, 1⟩,
      ⟨1, 0, 0, 1599990060, 0, [{ plainCoinBase (200 * COIN) with hash := 400 }], 0, 5⟩,
      ⟨2, 1, 0, 1599990120, 0, [plainCoinBase 0], 0, 5⟩,
      ⟨3, 2, 0, 1599994000, 0, [plainCoinBase 0], 0, 5⟩]
  linked := by decide
  distinct := by decide

/-- The coins of the examples: the output of the coin 400. -/
def coinAtHeightOne (hash : Uint256) : Option CCoins :=
  if hash = 400 then some { fCoinBase := true, vout := [⟨200 * COIN, [0x51], -10⟩], nHeight := 1 }
  else none

/-- What the kernel check of the examples reads, on a chain of this height. Every script verifies,
and every hash meets its target. -/
def KernelContext.overChain (chain : BlockChain) (tipHeight : Int) : KernelContext where
  validation := ValidationContext.mainContext tipHeight
  mapBlockIndex hash :=
    (chain.toCChain .mainModifier).vChain.find? fun pindex => pindex.hash == hash
  chainActive := chain.toCChain .mainModifier
  mempoolLookup _ := none
  fTxIndex := false
  readTxIndex _ := none
  accessCoins := coinAtHeightOne
  readBlockFromDisk hash := chain.blocks.find? fun block => block.hash == hash
  verifyScript _ _ _ _ := true
  hashSerial serial := BitVec.ofInt 256 serial
  hashStake _ _ _ _ := 0

/-- A node on a chain. -/
def StakingNode.overChain (chain : BlockChain) (tipHeight : Int) : StakingNode where
  accept :=
    { AcceptContext.mainAccept tipHeight with
      checkProofOfStake := fun block =>
        (GiantCore.checkProofOfStake (.overChain chain tipHeight) block).toOption.map fun checked =>
          (checked.1, some (checked.2.toInput (.overChain chain tipHeight)))
      chainContains := fun hash =>
        (KernelContext.overChain chain tipHeight).chainActive.vChain.any fun pindex =>
          pindex.hash == hash
      readBlockFromDisk := (KernelContext.overChain chain tipHeight).readBlockFromDisk
      accessCoins := coinAtHeightOne }
  kernel := .overChain chain tipHeight
  sameValidation := rfl
  sameCoins := rfl
  sameDisk := rfl
  sameChain _ := rfl
  checks _ := rfl

/-- What the kernel check of the examples reads. -/
def KernelContext.withCoin : KernelContext := .overChain .withCoin 3

/-- The node of the examples. -/
def StakingNode.withCoin : StakingNode := .overChain .withCoin 3

/-- The tip of the examples. -/
def coinTip : IndexNode where
  header := ⟨3, 3, 1599994000, 5⟩
  ancestors := [⟨2, 2, 1599990120, 5⟩, ⟨1, 1, 1599990060, 5⟩, ⟨0, 0, 1599990000, 1⟩]

/-- A block on the tip that stakes an output of the coin 400. -/
def coinStakingBlock (n : UInt32) (nTime : Int) : CBlock :=
  { blockOn 3 [{ plainCoinBase 0 with vout := [⟨0, [], -10⟩] },
      { hash := 501, vin := [{ prevout := ⟨400, n⟩ }],
        vout := [⟨0, [], -10⟩, ⟨200 * COIN, [0x52], -10⟩] }] with nTime }

/-- Every such block reaches the check. -/
theorem coinStakingBlock_reaches (n : UInt32) :
    ReachesKernelCheck StakingNode.withCoin.accept (.single coinTip)
      (coinStakingBlock n 1599998000) {} where
  parent := ⟨some coinTip, rfl, Or.inr rfl⟩
  stakes := rfl

theorem checkProofOfStake_ne_outOfRange_coin :
    checkProofOfStake StakingNode.withCoin.kernel (coinStakingBlock 0 1599998000) ≠
      .error .outOfRange := by
  apply (checkProofOfStake_ne_outOfRange_iff .withCoin (.single coinTip)
    (coinStakingBlock 0 1599998000) {} (coinStakingBlock_reaches 0)).mpr
  intro txin kernel _ txPrev hashBlock found
  cases kernel
  revert found
  have read : KernelContext.withCoin.getTransaction 400 =
      some ({ plainCoinBase (200 * COIN) with hash := 400 }, 1) := by decide +kernel
  change KernelContext.withCoin.getTransaction 400 = some (txPrev, hashBlock) → _
  rw [read]
  intro same
  cases same
  decide

/-- A kernel that names the sixth output of a transaction with one. -/
theorem not_checkProofOfStake_ne_outOfRange_coin :
    ¬ ∀ (node : StakingNode) (tree : BlockTree) (block : CBlock) (state : CValidationState),
      ReachesKernelCheck node.accept tree block state →
      checkProofOfStake node.kernel block ≠ .error .outOfRange := by
  intro safe
  apply safe .withCoin (.single coinTip) (coinStakingBlock 5 1599998000) {}
    (coinStakingBlock_reaches 5)
  decide +kernel

/-! ## The rules of the staker -/

/-- `nStakeMinAge`: one hour. -/
def nStakeMinAge : Int := 60 * 60

section

variable {params : CChainParams} {nHeight nTimeBlockFrom nTime : Int} {nValue : CAmount}

end

/-- The header of a block that the tree has passed the tests on headers in some state of the node,
on the same parent. -/
def HeaderPassed (params : CChainParams) (tree : BlockTree) (block : CBlock)
    (pindexPrev : IndexNode) : Prop :=
  tree.mapBlockIndex block.hash ≠ none → ∃ ctx tree' state,
    ctx.node.params = params ∧ checkHeaderAfter ctx tree' block state pindexPrev = .ok ()

/-- **A stored block is later than the median of the blocks before it.** -/
theorem medianTimePast_lt_of_stored {ctx : AcceptContext} {tree : BlockTree} {block : CBlock}
    {state : CValidationState} {fAlreadyCheckedBlock : Bool} {pindexPrev : IndexNode}
    (other : ctx.validation.node.params.networkID ≠ .regtest)
    (parent : findParent ctx tree block state = .ok (some (some pindexPrev)))
    (passed : HeaderPassed ctx.validation.node.params tree block pindexPrev)
    (stored : (acceptBlock ctx tree block state fAlreadyCheckedBlock).2 = .ok .stored) :
    pindexPrev.getMedianTimePast < block.nTime := by
  obtain ⟨_, after, pindex, _, _, header, -⟩ := acceptBlock_stored stored
  have notFirst : block.hash ≠ ctx.headers.hashGenesisBlock := by
    intro first
    rw [findParent, if_pos first] at parent
    cases parent
  have found := (findParent_eq_ok parent).resolve_left notFirst
  cases known : tree.mapBlockIndex block.hash with
  | some before =>
      obtain ⟨headers, tree', state', same, accepted⟩ := passed (by simp [known])
      exact medianTimePast_lt_of_accepted (same ▸ other) accepted
  | none =>
      unfold acceptBlockHeader at header
      simp only [known, if_neg notFirst, found, contextualCheckBlockHeader] at header
      split at header
      · cases header
      · obtain ⟨accepted, checked, result⟩ := Option.map_eq_some_iff.mp header
        obtain ⟨prev, own, rfl⟩ := Option.map_eq_some_iff.mp checked
        cases own
        cases passes : checkHeaderAfter ctx.headers tree block state pindexPrev with
        | error broken =>
            rw [passes] at result
            cases result
        | ok _ => exact medianTimePast_lt_of_accepted (ctx.sameNode ▸ other) passes

/-- **The chain has settled below a new block**: what can be staked lies an hour before the first
time that the block may have, one second after the median time of its parent, and from the
activation height on it is not too small. -/
structure StakingNode.Settled (node : StakingNode) (pindexPrev : IndexNode) : Prop where
  aged : ∀ prevout out blockFrom, node.CanStake prevout out blockFrom →
    blockFrom.nTime + nStakeMinAge ≤ pindexPrev.getMedianTimePast + 1
  amount : ∀ prevout out blockFrom, node.CanStake prevout out blockFrom →
    node.accept.validation.node.params.nMinStakeActivationHeight ≤ pindexPrev.header.nHeight + 1 →
      node.accept.validation.node.params.nStakeMinAmount ≤ out.nValue

/-- A block with an ordinary kernel that is stored on a parent. -/
structure StakingNode.Stores (node : StakingNode) (tree : BlockTree) (pindexPrev : IndexNode)
    (block : CBlock) (txin : CTxIn) : Prop where
  parent : ∃ state fAlreadyCheckedBlock,
    findParent node.accept tree block state = .ok (some (some pindexPrev)) ∧
      (acceptBlock node.accept tree block state fAlreadyCheckedBlock).2 = .ok .stored
  passed : HeaderPassed node.accept.validation.node.params tree block pindexPrev
  stakes : block.isProofOfStake = true
  kernel : block.kernelInput = some txin
  ordinary : txin.isZerocoinSpend = false

section

variable {node : StakingNode} {tree : BlockTree} {pindexPrev : IndexNode} {block : CBlock}
  {txin : CTxIn}

theorem StakingNode.Stores.later (stores : node.Stores tree pindexPrev block txin)
    (other : node.accept.validation.node.params.networkID ≠ .regtest) :
    pindexPrev.getMedianTimePast < block.nTime := by
  obtain ⟨state, fAlreadyCheckedBlock, parent, stored⟩ := stores.parent
  exact medianTimePast_lt_of_stored other parent stores.passed stored

end

end GiantCore
