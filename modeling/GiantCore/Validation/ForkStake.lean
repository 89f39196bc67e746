import GiantCore.Coins.Undo
import GiantCore.Validation.AcceptBlock

/-! # The stake of a block on a fork

What the walk of `AcceptBlock` along a fork finds out about the stake of the new
block. The part of the branch that is not on the active chain is read block by
block, and every input there is compared with the coins that are staked. The
serials on the way are recorded only while there is a coin to compare with, so a
stake of zerocoins alone is compared with none of them.

Below the split the serials of a stake are looked up in the zerocoin database.
Its coins are not looked up anywhere: the test of the coin database at the end is
for blocks on the tip.
-/

namespace GiantCore

open CValidationState

namespace AcceptContext

variable (ctx : AcceptContext)

/-- The blocks of a branch after the split. -/
def forkPart (branch : List HeaderIndex) : List HeaderIndex :=
  branch.takeWhile fun header => !ctx.chainContains header.hash

/-- The blocks of a branch on the active chain, from the split down. -/
def mainPart (branch : List HeaderIndex) : List HeaderIndex :=
  branch.dropWhile fun header => !ctx.chainContains header.hash

/-- An outpoint is spent by one of the blocks. -/
def SpentOn (headers : List HeaderIndex) (out : COutPoint) : Prop :=
  ∃ header ∈ headers, ∃ bl, ctx.readBlockFromDisk header.hash = some bl ∧ out ∈ bl.spent

instance (headers : List HeaderIndex) (out : COutPoint) : Decidable (ctx.SpentOn headers out) :=
  decidable_of_iff (∃ header ∈ headers,
      (ctx.readBlockFromDisk header.hash).any (fun bl => decide (out ∈ bl.spent)) = true) <| by
    simp only [SpentOn, Option.any_eq_true, decide_eq_true_eq]

/-- A serial is spent by one of the blocks. -/
def SerialSpentOn (headers : List HeaderIndex) (serial : CBigNum) : Prop :=
  ∃ header ∈ headers, ∃ bl, ctx.readBlockFromDisk header.hash = some bl ∧
    ∃ tx ∈ bl.vtx, ∃ txin ∈ tx.vin, txin.isZerocoinSpend = true ∧
      ctx.validation.spendSerial txin = some serial

instance (headers : List HeaderIndex) (serial : CBigNum) :
    Decidable (ctx.SerialSpentOn headers serial) :=
  decidable_of_iff (∃ header ∈ headers, (ctx.readBlockFromDisk header.hash).any (fun bl =>
      decide (∃ tx ∈ bl.vtx, ∃ txin ∈ tx.vin, txin.isZerocoinSpend = true ∧
        ctx.validation.spendSerial txin = some serial)) = true) <| by
    simp only [SerialSpentOn, Option.any_eq_true, decide_eq_true_eq]

/-- The zerocoin database finds every serial that the active chain spends below the
split at the height where it is spent. -/
def RecordsSerials (branch : List HeaderIndex) : Prop :=
  ∀ header ∈ ctx.mainPart branch, ∀ serial, ctx.SerialSpentOn [header] serial →
    ctx.validation.isSerialInBlockchain serial = some header.nHeight

theorem forkPart_append_mainPart (branch : List HeaderIndex) :
    ctx.forkPart branch ++ ctx.mainPart branch = branch :=
  List.takeWhile_append_dropWhile

variable {ctx}

/-- What is spent on a branch is spent after the split, or at it or below. -/
theorem spentOn_branch {branch : List HeaderIndex} {out : COutPoint} :
    ctx.SpentOn branch out ↔
      ctx.SpentOn (ctx.forkPart branch) out ∨ ctx.SpentOn (ctx.mainPart branch) out := by
  conv_lhs => rw [← ctx.forkPart_append_mainPart branch]
  simp only [SpentOn, List.mem_append, or_and_right, exists_or]

theorem serialSpentOn_branch {branch : List HeaderIndex} {serial : CBigNum} :
    ctx.SerialSpentOn branch serial ↔
      ctx.SerialSpentOn (ctx.forkPart branch) serial ∨
        ctx.SerialSpentOn (ctx.mainPart branch) serial := by
  conv_lhs => rw [← ctx.forkPart_append_mainPart branch]
  simp only [SerialSpentOn, List.mem_append, or_and_right, exists_or]

end AcceptContext

/-- The coinstake of a proof-of-stake block. -/
def CBlock.stakeInputs (block : CBlock) : List CTxIn := block.vtx[1]?.elim [] CTransaction.vin

/-! ## The walk -/

section

variable {ctx : AcceptContext} {state : CValidationState} {gicInputs : List CTxIn}

/-- What an input of a block on the fork must not do, and what is recorded of it. -/
structure Compared (ctx : AcceptContext) (gicInputs : List CTxIn) (txin : CTxIn)
    (serials : List CBigNum) : Prop where
  apart : ∀ stakeIn ∈ gicInputs, stakeIn.prevout ≠ txin.prevout
  recorded : gicInputs ≠ [] → txin.isZerocoinSpend = true →
    ∀ serial, ctx.validation.spendSerial txin = some serial → serial ∈ serials

/-- All inputs of a transaction are compared. -/
def ComparedTx (ctx : AcceptContext) (gicInputs : List CTxIn) (tx : CTransaction)
    (serials : List CBigNum) : Prop :=
  ∀ txin ∈ tx.vin, Compared ctx gicInputs txin serials

theorem Compared.mono {txin : CTxIn} {before after : List CBigNum}
    (was : Compared ctx gicInputs txin before) (grown : before ⊆ after) :
    Compared ctx gicInputs txin after where
  apart := was.apart
  recorded coins spends serial found := grown (was.recorded coins spends serial found)

theorem ComparedTx.mono {tx : CTransaction} {before after : List CBigNum}
    (was : ComparedTx ctx gicInputs tx before) (grown : before ⊆ after) :
    ComparedTx ctx gicInputs tx after :=
  fun txin member => (was txin member).mono grown

theorem readSerial_eq_ok {txin : CTxIn} {spend : Libzerocoin.CoinSpend}
    (read : readSerial ctx state txin = .ok spend) :
    ctx.validation.spendSerial txin = some spend.coinSerialNumber := by
  unfold readSerial txInToZerocoinSpend at read
  unfold ValidationContext.spendSerial
  cases data : ctx.validation.lib.deserializeSpend (txin.scriptSig.drop bignumSize) with
  | none => simp [data] at read
  | some fields =>
      simp only [data, Option.map_some, Option.elim_some, Except.ok.injEq] at read
      rw [← read]
      rfl

/-- One input of the stake. -/
theorem scanInput_eq_ok {txin stakeIn : CTxIn} {before after : List CBigNum}
    (scanned : scanInput ctx state txin before stakeIn = .ok after) :
    before ⊆ after ∧ Compared ctx [stakeIn] txin after := by
  unfold scanInput at scanned
  rw [bind_eq_ok, require_eq_ok] at scanned
  obtain ⟨different, rest⟩ := scanned
  have apart : ∀ other ∈ [stakeIn], other.prevout ≠ txin.prevout := by simpa using different
  cases spends : txin.isZerocoinSpend with
  | false =>
      simp only [spends, Bool.false_eq_true, if_false, Except.ok.injEq] at rest
      subst rest
      refine ⟨List.Subset.refl _, apart, fun _ spend => ?_⟩
      rw [spends] at spend
      cases spend
  | true =>
      rw [spends, if_pos rfl, Foundation.Checks.bind_eq_ok] at rest
      obtain ⟨spend, read, collected⟩ := rest
      cases collected
      refine ⟨List.subset_append_left _ _, apart, fun _ _ serial found => ?_⟩
      rw [readSerial_eq_ok read] at found
      cases found
      simp

/-- One input of the fork, against all inputs of the stake. -/
theorem foldlM_scanInput_eq_ok {txin : CTxIn} {before after : List CBigNum}
    (scanned : gicInputs.foldlM (scanInput ctx state txin) before = .ok after) :
    before ⊆ after ∧ Compared ctx gicInputs txin after := by
  obtain ⟨grown, each⟩ := Foundation.Checks.forall_of_foldlM_eq_ok (· ⊆ ·)
    (fun stakeIn serials => Compared ctx [stakeIn] txin serials) List.Subset.refl
    List.Subset.trans Compared.mono (fun stakeIn _ before after step => scanInput_eq_ok step)
    scanned
  refine ⟨grown, fun stakeIn member => ?_, fun coins => ?_⟩
  · exact (each stakeIn member).apart stakeIn List.mem_cons_self
  · obtain ⟨stakeIn, rest, split⟩ := List.exists_cons_of_ne_nil coins
    have first : stakeIn ∈ gicInputs := split ▸ List.mem_cons_self
    exact (each stakeIn first).recorded (List.cons_ne_nil _ _)

/-- **A block on the fork** spends none of the coins that are staked, and its serials
are recorded if there are any. -/
theorem scanForkBlock_eq_ok {before after : List CBigNum} {bl : CBlock}
    (scanned : scanForkBlock ctx state gicInputs before bl = .ok after) :
    before ⊆ after ∧ ∀ tx ∈ bl.vtx, ComparedTx ctx gicInputs tx after := by
  have transaction : ∀ tx ∈ bl.vtx, ∀ before after, tx.vin.foldlM (fun vBlockSerials txin =>
      gicInputs.foldlM (scanInput ctx state txin) vBlockSerials) before = .ok after →
      before ⊆ after ∧ ComparedTx ctx gicInputs tx after := by
    intro tx _ before after loop
    exact Foundation.Checks.forall_of_foldlM_eq_ok (· ⊆ ·) (Compared ctx gicInputs)
      List.Subset.refl List.Subset.trans Compared.mono
      (fun txin _ before after step => foldlM_scanInput_eq_ok step) loop
  exact Foundation.Checks.forall_of_foldlM_eq_ok (· ⊆ ·) (ComparedTx ctx gicInputs)
    List.Subset.refl List.Subset.trans ComparedTx.mono transaction scanned

/-- A stake without coins records nothing. -/
theorem scanForkBlock_nil (before : List CBigNum) (bl : CBlock) :
    scanForkBlock ctx state [] before bl = .ok before := by
  apply Foundation.Checks.foldlM_eq_ok_of_skip
  intro tx _
  apply Foundation.Checks.foldlM_eq_ok_of_skip
  intro txin _
  rfl

/-- What the walk knows at the split. -/
structure Walked (ctx : AcceptContext) (gicInputs : List CTxIn) (branch : List HeaderIndex)
    (before serials : List CBigNum) (splitHeight : Int) : Prop where
  grown : before ⊆ serials
  silent : gicInputs = [] → serials = before
  compared : ∀ header ∈ ctx.forkPart branch, ∃ bl,
    ctx.readBlockFromDisk header.hash = some bl ∧ ∀ tx ∈ bl.vtx, ComparedTx ctx gicInputs tx serials
  split : ∃ split rest, ctx.mainPart branch = split :: rest ∧ split.nHeight = splitHeight

/-- The walk ends at a block of the active chain. -/
theorem walked_of_onChain {prev : HeaderIndex} (ancestors : List HeaderIndex)
    (serials : List CBigNum) (onChain : ctx.chainContains prev.hash = true) :
    Walked ctx gicInputs (prev :: ancestors) serials serials prev.nHeight where
  grown := List.Subset.refl _
  silent _ := rfl
  compared := by simp [AcceptContext.forkPart, onChain]
  split := ⟨prev, ancestors, by simp [AcceptContext.mainPart, onChain], rfl⟩

/-- The walk goes on below a block that it has scanned. -/
theorem Walked.scan {prev : HeaderIndex} {ancestors : List HeaderIndex} {bl : CBlock}
    {before middle serials : List CBigNum} {splitHeight : Int}
    (offChain : ctx.chainContains prev.hash = false)
    (read : ctx.readBlockFromDisk prev.hash = some bl)
    (scanned : scanForkBlock ctx state gicInputs before bl = .ok middle)
    (walked : Walked ctx gicInputs ancestors middle serials splitHeight) :
    Walked ctx gicInputs (prev :: ancestors) before serials splitHeight := by
  obtain ⟨grown, compared⟩ := scanForkBlock_eq_ok scanned
  refine ⟨List.Subset.trans grown walked.grown, ?_, ?_, ?_⟩
  · intro none
    subst none
    rw [scanForkBlock_nil] at scanned
    cases scanned
    exact walked.silent rfl
  · intro header member
    rw [AcceptContext.forkPart, List.takeWhile_cons_of_pos (by simp [offChain])] at member
    rcases List.mem_cons.mp member with rfl | older
    · exact ⟨bl, read, fun tx inBlock => (compared tx inBlock).mono walked.grown⟩
    · exact walked.compared header older
  · rw [AcceptContext.mainPart, List.dropWhile_cons_of_pos (by simp [offChain])]
    exact walked.split

/-- **The walk** reads every block after the split. -/
theorem walkFork_eq_ok {prev : HeaderIndex} {ancestors : List HeaderIndex} {bl : CBlock}
    {readBlock splitHeight : Int} {before serials : List CBigNum}
    (read : ctx.readBlockFromDisk prev.hash = some bl)
    (walked : walkFork ctx state gicInputs (prev :: ancestors) bl readBlock before =
      .ok (serials, splitHeight)) :
    Walked ctx gicInputs (prev :: ancestors) before serials splitHeight := by
  induction ancestors generalizing prev bl readBlock before with
  | nil =>
      unfold walkFork at walked
      split at walked
      · rename_i onChain
        cases walked
        exact walked_of_onChain [] serials onChain
      · -- the first block of a branch is on the active chain, or the source reads past it
        simp only [Foundation.Checks.bind_eq_ok] at walked
        obtain ⟨_, _, _, _, walked⟩ := walked
        cases walked
  | cons pprev older ih =>
      unfold walkFork at walked
      split at walked
      · rename_i onChain
        cases walked
        exact walked_of_onChain (pprev :: older) serials onChain
      · rename_i offChain
        simp only [Foundation.Checks.bind_eq_ok] at walked
        obtain ⟨_, _, middle, scanned, walked⟩ := walked
        rw [acceptRule, Foundation.Checks.mapError_eq_ok] at scanned
        split at walked
        · cases walked
        · rename_i below readBelow
          exact (ih readBelow walked).scan (by simpa using offChain) read scanned

/-- What is known of the stake of a fork block that is stored. -/
theorem checkFork_eq_ok {stakeTx : CTransaction} {prev pindex : IndexNode}
    (checked : checkFork ctx state stakeTx prev pindex = .ok ()) :
    ∃ serials splitHeight,
      Walked ctx (stakeTx.vin.filter fun txin => !txin.isZerocoinSpend) prev.branch [] serials
        splitHeight ∧
      ∀ txin ∈ stakeTx.vin, txin.isZerocoinSpend = true →
        checkForkSpend ctx state stakeTx pindex serials splitHeight txin = .ok () := by
  unfold checkFork at checked
  simp only at checked
  split at checked
  · cases checked
  · rename_i bl read
    rw [Foundation.Checks.bind_eq_ok] at checked
    obtain ⟨⟨serials, splitHeight⟩, walked, spends⟩ := checked
    refine ⟨serials, splitHeight, walkFork_eq_ok read walked, ?_⟩
    rw [acceptRule, Foundation.Checks.mapError_eq_ok] at spends
    have each := Foundation.Checks.forM_eq_ok_iff.mp spends
    exact fun txin member spend => each txin (List.mem_filter.mpr ⟨member, spend⟩)

end

/-! ## What is stored on a fork -/

section

variable {ctx : AcceptContext} {tree : BlockTree} {block : CBlock} {state : CValidationState}
  {fAlreadyCheckedBlock : Bool} {prev : IndexNode}

/-- The stake of a block that is stored on a fork went through the walk. -/
theorem exists_walked_of_stored
    (stored : (acceptBlock ctx tree block state fAlreadyCheckedBlock).2 = .ok .stored)
    (parent : findParent ctx tree block state = .ok (some (some prev)))
    (fork : ctx.isBlockFromFork (some prev) = true) (stakes : block.isProofOfStake = true) :
    ∃ stakeTx pindex serials splitHeight, block.vtx[1]? = some stakeTx ∧
      Walked ctx (stakeTx.vin.filter fun txin => !txin.isZerocoinSpend) prev.branch [] serials
        splitHeight ∧
      ∀ txin ∈ stakeTx.vin, txin.isZerocoinSpend = true →
        checkForkSpend ctx state stakeTx pindex serials splitHeight txin = .ok () := by
  obtain ⟨pindexPrev, after, pindex, found, -, -, -, -, spends, -⟩ := acceptBlock_stored stored
  rw [parent] at found
  cases found
  unfold checkStakeSpends at spends
  rw [stakes, Bool.not_true, if_neg Bool.false_ne_true] at spends
  split at spends
  · cases spends
  · rename_i stakeTx second
    simp only [Foundation.Checks.bind_eq_ok, fork, if_true] at spends
    obtain ⟨_, _, _, checked, _⟩ := spends
    obtain ⟨serials, splitHeight, walked, each⟩ := checkFork_eq_ok checked
    exact ⟨stakeTx, pindex, serials, splitHeight, second, walked, each⟩

end

/-- **The coins of a stake on a fork.** None of them is spent on the branch that the
block extends if and only if none of them is spent on the active chain, at or
below the split: the walk excludes what is spent after the split, and nothing
else is looked up. -/
theorem stakeUnspent_iff (ctx : AcceptContext) (tree : BlockTree) (block : CBlock)
    (state : CValidationState) (fAlreadyCheckedBlock : Bool) (prev : IndexNode)
    (stored : (acceptBlock ctx tree block state fAlreadyCheckedBlock).2 = .ok .stored)
    (parent : findParent ctx tree block state = .ok (some (some prev)))
    (fork : ctx.isBlockFromFork (some prev) = true) (stakes : block.isProofOfStake = true) :
    (∀ txin ∈ block.stakeInputs, txin.isZerocoinSpend = false →
        ¬ ctx.SpentOn prev.branch txin.prevout) ↔
      ∀ txin ∈ block.stakeInputs, txin.isZerocoinSpend = false →
        ¬ ctx.SpentOn (ctx.mainPart prev.branch) txin.prevout := by
  obtain ⟨stakeTx, pindex, serials, splitHeight, second, walked, -⟩ :=
    exists_walked_of_stored stored parent fork stakes
  have inputs : block.stakeInputs = stakeTx.vin := by rw [CBlock.stakeInputs, second]; rfl
  have unspentOnFork : ∀ txin ∈ block.stakeInputs, txin.isZerocoinSpend = false →
      ¬ ctx.SpentOn (ctx.forkPart prev.branch) txin.prevout := by
    intro txin member ordinary ⟨header, onFork, bl, read, spent⟩
    obtain ⟨bl', read', compared⟩ := walked.compared header onFork
    rw [read] at read'
    cases read'
    obtain ⟨tx, inBlock, out⟩ := List.mem_flatMap.mp spent
    unfold CTransaction.spent at out
    split at out
    · obtain ⟨other, inTx, same⟩ := List.mem_map.mp out
      have staked : txin ∈ stakeTx.vin.filter fun txin => !txin.isZerocoinSpend :=
        List.mem_filter.mpr ⟨inputs ▸ member, by simp [ordinary]⟩
      exact (compared tx inBlock other inTx).apart txin staked same.symm
    · cases out
  constructor
  · intro unspent txin member ordinary below
    exact unspent txin member ordinary (AcceptContext.spentOn_branch.mpr (Or.inr below))
  · intro unspent txin member ordinary spent
    rcases AcceptContext.spentOn_branch.mp spent with onFork | below
    · exact unspentOnFork txin member ordinary onFork
    · exact unspent txin member ordinary below

/-- A block index of the examples, whose hash is its height. -/
def exampleHeader (nHeight : Int) : HeaderIndex :=
  ⟨BitVec.ofInt 256 nHeight, nHeight, CChainParams.main.nGenesisTime + 60 * nHeight, 5⟩

/-- The block below the tip of the examples. -/
def belowTip : IndexNode where
  header := exampleHeader 2
  ancestors := [exampleHeader 1, exampleHeader 0]

/-- A node of the main network whose tip is the block after `belowTip`. -/
def nodeAboveFork : NodeContext :=
  { NodeContext.mainNode 3 with
    mapBlockIndex := fun hash => if hash = 2 then some ⟨2, 2⟩ else none }

/-- The block at height 1 makes the coin 400, and the one at height 2 spends it. -/
def blockBelowTip (hash : Uint256) : Option CBlock :=
  if hash = 1 then some (blockOn 0 [{ plainCoinBase (200 * COIN) with hash := 400 }])
  else if hash = 2 then
    some (blockOn 1 [plainCoinBase 0,
      { hash := 503, vin := [{ prevout := ⟨400, 0⟩ }], vout := [⟨200 * COIN, [0x53], -10⟩] }])
  else none

/-- The node of the examples, where every kernel is good. -/
def AcceptContext.aboveFork : AcceptContext :=
  { AcceptContext.mainAccept 3 with
    validation := { ValidationContext.mainContext 3 with node := nodeAboveFork }
    headers := { HeaderContext.mainHeaders 3 with node := nodeAboveFork }
    sameNode := rfl
    checkProofOfStake := fun _ => some (0, some ⟨false, some 1, 200 * COIN, 0⟩)
    chainContains := fun hash => decide (hash.toNat ≤ 3)
    readBlockFromDisk := blockBelowTip }

/-- A block on `belowTip` that stakes a coin. -/
def stakingBlock (coin : Uint256) : CBlock :=
  blockOn 2 [{ plainCoinBase 0 with vout := [⟨0, [], -10⟩] },
    { hash := 501, vin := [{ prevout := ⟨coin, 0⟩ }],
      vout := [⟨0, [], -10⟩, ⟨200 * COIN, [0x52], -10⟩] }]

theorem stakeUnspent_belowTip :
    (acceptBlock .aboveFork (.single belowTip) (stakingBlock 401) {} false).2 = .ok .stored ∧
    ∀ txin ∈ (stakingBlock 401).stakeInputs, txin.isZerocoinSpend = false →
      ¬ AcceptContext.aboveFork.SpentOn belowTip.branch txin.prevout := by
  have stored :
    (acceptBlock .aboveFork (.single belowTip) (stakingBlock 401) {} false).2 = .ok .stored := by
    decide
  refine ⟨stored, ?_⟩
  apply (stakeUnspent_iff .aboveFork (.single belowTip) (stakingBlock 401) {} false belowTip
    stored rfl (by decide) (by decide)).mpr
  decide

/-- The coin 400 is staked again after it was spent at the block that the fork
extends. -/
theorem not_stakeUnspent_belowTip :
    ¬ ∀ (ctx : AcceptContext) (tree : BlockTree) (block : CBlock) (state : CValidationState)
      (fAlreadyCheckedBlock : Bool) (prev : IndexNode),
      (acceptBlock ctx tree block state fAlreadyCheckedBlock).2 = .ok .stored →
      findParent ctx tree block state = .ok (some (some prev)) →
      ctx.isBlockFromFork (some prev) = true → block.isProofOfStake = true →
      ∀ txin ∈ block.stakeInputs, txin.isZerocoinSpend = false →
        ¬ ctx.SpentOn prev.branch txin.prevout := by
  intro unspent
  exact unspent .aboveFork (.single belowTip) (stakingBlock 400) {} false belowTip (by decide) rfl
    (by decide) (by decide) { prevout := ⟨400, 0⟩ } (by decide) (by decide) (by decide)

/-! ## Serials -/

section

variable {ctx : AcceptContext} {state : CValidationState}

/-- A zerocoin that passes is neither recorded nor found at or below the split. -/
theorem checkForkSpend_eq_ok {stakeTx : CTransaction} {pindex : IndexNode}
    {serials : List CBigNum} {splitHeight : Int} {txin : CTxIn} {serial : CBigNum}
    (checked : checkForkSpend ctx state stakeTx pindex serials splitHeight txin = .ok ())
    (found : ctx.validation.spendSerial txin = some serial) :
    serial ∉ serials ∧ ∀ nHeightTx, ctx.validation.isSerialInBlockchain serial = some nHeightTx →
      splitHeight < nHeightTx := by
  unfold checkForkSpend at checked
  simp only at checked
  rw [Foundation.Checks.bind_eq_ok] at checked
  obtain ⟨spend, read, checked⟩ := checked
  rw [readSerial_eq_ok read] at found
  cases found
  simp only [bind_eq_ok, require_eq_ok] at checked
  obtain ⟨unrecorded, later, -⟩ := checked
  refine ⟨by simpa using unrecorded, ?_⟩
  intro nHeightTx lookup
  simpa [lookup] using later

/-- A serial that is spent at or below the split is found there. -/
theorem serialSpentOn_mainPart {branch : List HeaderIndex} {split : HeaderIndex}
    {rest : List HeaderIndex} {serial : CBigNum} (records : ctx.RecordsSerials branch)
    (falling : branch.Pairwise fun later earlier => earlier.nHeight < later.nHeight)
    (main : ctx.mainPart branch = split :: rest)
    (spent : ctx.SerialSpentOn (ctx.mainPart branch) serial) :
    ∃ nHeightTx, ctx.validation.isSerialInBlockchain serial = some nHeightTx ∧
      nHeightTx ≤ split.nHeight := by
  obtain ⟨header, member, bl, read, spends⟩ := spent
  refine ⟨header.nHeight, records header member serial ⟨header, List.mem_cons_self, bl, read,
    spends⟩, ?_⟩
  have fallsBelow : (split :: rest).Pairwise fun later earlier =>
      earlier.nHeight < later.nHeight :=
    main ▸ falling.sublist (List.dropWhile_sublist _)
  rw [main] at member
  rcases List.mem_cons.mp member with rfl | below
  · exact Int.le_refl _
  · exact Int.le_of_lt ((List.pairwise_cons.mp fallsBelow).1 header below)

/-- A serial on the fork is recorded if the stake has an ordinary input. -/
theorem Walked.mem_of_spentOn_forkPart {gicInputs : List CTxIn} {branch : List HeaderIndex}
    {serials : List CBigNum} {splitHeight : Int} {serial : CBigNum}
    (walked : Walked ctx gicInputs branch [] serials splitHeight) (coins : gicInputs ≠ [])
    (spent : ctx.SerialSpentOn (ctx.forkPart branch) serial) : serial ∈ serials := by
  obtain ⟨header, onFork, bl, read, tx, inBlock, txin, inTx, spends, found⟩ := spent
  obtain ⟨bl', read', compared⟩ := walked.compared header onFork
  rw [read] at read'
  cases read'
  exact (compared tx inBlock txin inTx).recorded coins spends serial found

end

/-- **The serials of a stake on a fork.** None of them is spent on the branch that the
block extends if and only if the coinstake has an ordinary input as well, which
makes the walk record serials, or none of them is spent after the split. -/
theorem serialsUnspent_iff (ctx : AcceptContext) (tree : BlockTree) (block : CBlock)
    (state : CValidationState) (fAlreadyCheckedBlock : Bool) (prev : IndexNode)
    (stored : (acceptBlock ctx tree block state fAlreadyCheckedBlock).2 = .ok .stored)
    (parent : findParent ctx tree block state = .ok (some (some prev)))
    (fork : ctx.isBlockFromFork (some prev) = true) (stakes : block.isProofOfStake = true)
    (records : ctx.RecordsSerials prev.branch)
    (falling : prev.branch.Pairwise fun later earlier => earlier.nHeight < later.nHeight) :
    (∀ txin ∈ block.stakeInputs, txin.isZerocoinSpend = true →
        ∀ serial, ctx.validation.spendSerial txin = some serial →
          ¬ ctx.SerialSpentOn prev.branch serial) ↔
      (∃ txin ∈ block.stakeInputs, txin.isZerocoinSpend = false) ∨
      ∀ txin ∈ block.stakeInputs, txin.isZerocoinSpend = true →
        ∀ serial, ctx.validation.spendSerial txin = some serial →
          ¬ ctx.SerialSpentOn (ctx.forkPart prev.branch) serial := by
  obtain ⟨stakeTx, pindex, serials, splitHeight, second, walked, each⟩ :=
    exists_walked_of_stored stored parent fork stakes
  have inputs : block.stakeInputs = stakeTx.vin := by rw [CBlock.stakeInputs, second]; rfl
  rw [inputs]
  constructor
  · intro unspent
    refine Or.inr fun txin member spends serial found onFork => ?_
    exact unspent txin member spends serial found
      (AcceptContext.serialSpentOn_branch.mpr (Or.inl onFork))
  · intro condition txin member spends serial found spent
    obtain ⟨unrecorded, later⟩ := checkForkSpend_eq_ok (each txin member spends) found
    rcases AcceptContext.serialSpentOn_branch.mp spent with onFork | below
    · rcases condition with ⟨coin, staked, ordinary⟩ | unspent
      · have coins : stakeTx.vin.filter (fun txin => !txin.isZerocoinSpend) ≠ [] :=
          List.ne_nil_of_mem (List.mem_filter.mpr ⟨staked, by simp [ordinary]⟩)
        exact unrecorded (walked.mem_of_spentOn_forkPart coins onFork)
      · exact unspent txin member spends serial found onFork
    · obtain ⟨split, rest, main, height⟩ := walked.split
      obtain ⟨nHeightTx, lookup, low⟩ := serialSpentOn_mainPart records falling main below
      have high := later nHeightTx lookup
      rw [← height] at high
      exact absurd low (Int.not_le.mpr high)

/-- The first block of a fork of the regression test network, which splits off at
height 301. -/
def forkTip : IndexNode where
  header := ⟨1302, 302, CChainParams.regtest.nGenesisTime + 60 * 302, 5⟩
  ancestors := (List.range 302).reverse.map fun nHeight : Nat => exampleHeader nHeight

/-- A block that stakes the zerocoin of a serial. -/
def zerocoinStakingBlock (hash hashPrevBlock : Uint256) (serial : UInt8) : CBlock :=
  { blockOn 0 [{ plainCoinBase 0 with vout := [⟨0, [], -10⟩] },
      { hash := 501
        vin := [{ prevout := COutPoint.null, scriptSig := [0xc2, 0, 0, 0, serial, 7, 2]
                  nSequence := 1 }]
        vout := [⟨0, [], -10⟩, ⟨1 * COIN, [0x52], -10⟩] }] with hash, hashPrevBlock }

/-- A node of the regression test network with another block at height 302. -/
def nodeBesideFork : NodeContext :=
  { NodeContext.mainNode 302 with
    params := .regtest
    mapBlockIndex := fun hash => if hash = 1302 then some ⟨1302, 302⟩ else none }

/-- The node of the examples. The block on the fork stakes the serial 9. -/
def AcceptContext.besideFork : AcceptContext :=
  { AcceptContext.mainAccept 302 with
    validation :=
      { ValidationContext.mainContext 302 with
        node := nodeBesideFork
        lib :=
          { Libzerocoin.plain with
            deserializeSpend := fun bytes => (Libzerocoin.plain.deserializeSpend bytes).map
              fun data => { data with isStake := true } } }
    headers := { HeaderContext.mainHeaders 302 with node := nodeBesideFork }
    sameNode := rfl
    checkProofOfStake := fun _ => some (0, some ⟨true, some 100, 1 * COIN, 0⟩)
    checkpointAt := fun _ => some 0
    chainContains := fun hash => decide (hash.toNat ≤ 302)
    readBlockFromDisk := fun hash =>
      some (if hash = 1302 then zerocoinStakingBlock 1302 301 9 else blockOn 0 [plainCoinBase 0]) }

/-- No block below the split spends a serial. -/
theorem besideFork_recordsSerials :
    AcceptContext.besideFork.RecordsSerials forkTip.branch := by
  have below : ∀ header ∈ AcceptContext.besideFork.mainPart forkTip.branch,
      header.hash ≠ 1302 := by decide +kernel
  intro header member serial ⟨same, isSame, bl, read, tx, inBlock, txin, inTx, spends, _⟩
  rw [List.mem_singleton] at isSame
  subst isSame
  have plain : AcceptContext.besideFork.readBlockFromDisk same.hash =
      some (blockOn 0 [plainCoinBase 0]) := congrArg some (if_neg (below same member))
  rw [plain] at read
  cases read
  rw [List.mem_singleton.mp inBlock] at inTx
  rw [List.mem_singleton.mp inTx] at spends
  cases spends

theorem forkTip_falling : forkTip.branch.Pairwise fun later earlier =>
    earlier.nHeight < later.nHeight := by
  have : IsTrans HeaderIndex fun later earlier => earlier.nHeight < later.nHeight :=
    ⟨fun _ _ _ first second => Int.lt_trans second first⟩
  exact List.isChain_iff_pairwise.mp (by decide +kernel)

theorem serialsUnspent_forkTip :
    (acceptBlock .besideFork (.single forkTip) (zerocoinStakingBlock 600 1302 8) {} false).2 =
      .ok .stored ∧
    ∀ txin ∈ (zerocoinStakingBlock 600 1302 8).stakeInputs, txin.isZerocoinSpend = true →
      ∀ serial, AcceptContext.besideFork.validation.spendSerial txin = some serial →
        ¬ AcceptContext.besideFork.SerialSpentOn forkTip.branch serial := by
  have stored : (acceptBlock .besideFork (.single forkTip) (zerocoinStakingBlock 600 1302 8) {}
      false).2 = .ok .stored := by
    decide +kernel
  refine ⟨stored, ?_⟩
  apply (serialsUnspent_iff .besideFork (.single forkTip) (zerocoinStakingBlock 600 1302 8) {}
    false forkTip stored rfl (by decide) (by decide) besideFork_recordsSerials forkTip_falling).mpr
  refine Or.inr ?_
  intro txin member _ serial found
  rw [List.mem_singleton.mp member] at found
  cases found
  decide +kernel

/-- The serial 9 is staked again on the block that staked it. -/
theorem not_serialsUnspent_forkTip :
    ¬ ∀ (ctx : AcceptContext) (tree : BlockTree) (block : CBlock) (state : CValidationState)
      (fAlreadyCheckedBlock : Bool) (prev : IndexNode),
      (acceptBlock ctx tree block state fAlreadyCheckedBlock).2 = .ok .stored →
      findParent ctx tree block state = .ok (some (some prev)) →
      ctx.isBlockFromFork (some prev) = true → block.isProofOfStake = true →
      ctx.validation.fZerocoinActive block = true → ctx.RecordsSerials prev.branch →
      (prev.branch.Pairwise fun later earlier => earlier.nHeight < later.nHeight) →
      ∀ txin ∈ block.stakeInputs, txin.isZerocoinSpend = true →
        ∀ serial, ctx.validation.spendSerial txin = some serial →
          ¬ ctx.SerialSpentOn prev.branch serial := by
  intro unspent
  have staked : CTxIn.isZerocoinSpend ⟨.null, [0xc2, 0, 0, 0, 9, 7, 2], 1⟩ = true := by decide
  exact unspent .besideFork (.single forkTip) (zerocoinStakingBlock 600 1302 9) {} false forkTip
    (by decide +kernel) rfl (by decide) (by decide) (by decide) besideFork_recordsSerials
    forkTip_falling _ List.mem_cons_self staked 9 (by decide) (by decide +kernel)

end GiantCore
