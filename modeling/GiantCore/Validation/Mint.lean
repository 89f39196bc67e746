import GiantCore.Coins.Undo
import GiantCore.Validation.CheckBlock

/-! # The amount a block creates

`ConnectBlock` computes what a block mints and asks `IsBlockValueValid` whether
that is too much. At a budget payment block the answer is yes to any amount,
"the value of the block is evaluated in CheckBlock", but the payee check of
`CheckBlock` only asks for payments and never for a total. A synced node
therefore bounds the mint of a block except where a budget pays
(`mintBounded_iff`).
-/

namespace GiantCore

namespace Connected

variable (connected : Connected)

/-- What the block creates, `pindex->nMint`. -/
def nMint : CAmount :=
  connected.state.nValueOut - connected.state.nValueIn + connected.state.nFees

/-- What the block may create. Proof-of-work blocks redistribute the fees. -/
def nExpectedMint (node : NodeContext) (block : CBlock) (pprev : CBlockIndex) : CAmount :=
  node.params.getBlockValue pprev.nHeight +
    if block.isProofOfWork then connected.state.nFees else 0

end Connected

section

variable (node : NodeContext) (budget : CBudgetManager) (payments : CMasternodePayments)
  (tip : CBlockIndex)

/-- The block passes the payee check, the tests of `ConnectBlock` on its kind, its
transactions and its value, on top of the tip. -/
structure Accepted (state : BudgetState) (ctx : ConnectContext) (view : CoinsMap)
    (zerocoinDB : ZerocoinDB) (block : CBlock) (after : BudgetState) (connected : Connected) :
    Prop where
  parent : block.hashPrevBlock = tip.hash
  payees : isBlockPayeeValid node budget payments block (tip.nHeight + 1) state =
    some (after, true)
  period : block.isProofOfStake = decide (tip.nHeight + 1 > node.params.nLastPOWBlock)
  connects : connectBlock ctx block (tip.nHeight + 1) view zerocoinDB = some connected
  value : (isBlockValueValid node budget block (connected.nExpectedMint node block tip)
    connected.nMint after.mnodeman).2 = true

/-- What the block creates is expected, or expected with the payment of a finalized
budget at a budget payment block. -/
def WithinAllowance (block : CBlock) (after : BudgetState) (connected : Connected) : Prop :=
  connected.nMint ≤ connected.nExpectedMint node block tip ∨
    (budget.isBudgetPaymentBlock node (tip.nHeight + 1) after.mnodeman).2 = true ∧
      ∃ finalized ∈ budget.paying (tip.nHeight + 1),
        ∃ payment ∈ finalized.getBudgetPaymentByBlock (tip.nHeight + 1),
          connected.nMint ≤ connected.nExpectedMint node block tip + payment.nAmount

/-- The mint of every block that is accepted on the tip stays within the allowance. -/
def MintBounded : Prop :=
  ∀ state ctx view zerocoinDB block after connected,
    Accepted node budget payments tip state ctx view zerocoinDB block after connected →
      WithinAllowance node budget tip block after connected

/-- A budget with a vote pays at the height, and no budget has more votes than all
that pay. -/
def AmountUnchecked (nBlockHeight : Int) : Prop :=
  (∃ finalized ∈ budget.paying nBlockHeight, 0 < finalized.getVoteCount) ∧
    ¬ budget.OutVoted nBlockHeight

instance (nBlockHeight : Int) : Decidable (AmountUnchecked budget nBlockHeight) :=
  inferInstanceAs (Decidable ((∃ finalized ∈ budget.paying nBlockHeight,
    0 < finalized.getVoteCount) ∧ ¬ budget.OutVoted nBlockHeight))

end

/-! ## Where the mint is bounded -/

section

variable {node : NodeContext} {budget : CBudgetManager} {payments : CMasternodePayments}
  {tip : CBlockIndex}

theorem blockHeight_of_parent {block : CBlock} (found : node.tip = some tip)
    (parent : block.hashPrevBlock = tip.hash) : node.blockHeight block = tip.nHeight + 1 := by
  simp [NodeContext.blockHeight, found, parent]

/-- What the value check of a synced node means. -/
theorem isBlockValueValid_iff {block : CBlock} (found : node.tip = some tip)
    (parent : block.hashPrevBlock = tip.hash) (synced : node.isSynced = true)
    (superblocks : node.isSporkActive .enableSuperblocks = true) (nExpectedValue nMinted : CAmount)
    (mnodeman : CMasternodeMan) :
    (isBlockValueValid node budget block nExpectedValue nMinted mnodeman).2 = true ↔
      (budget.isBudgetPaymentBlock node (tip.nHeight + 1) mnodeman).2 = true ∨
        nMinted ≤ nExpectedValue := by
  unfold isBlockValueValid
  rw [blockHeight_of_parent found parent]
  cases paid : (budget.isBudgetPaymentBlock node (tip.nHeight + 1) mnodeman).2 with
  | true => simp [found, synced, superblocks, paid]
  | false => simp [found, synced, superblocks, paid]

/-- Without a budget that pays, or with one that makes every block invalid, the
mint is bounded. -/
theorem mintBounded_of_checked (found : node.tip = some tip) (synced : node.isSynced = true)
    (superblocks : node.isSporkActive .enableSuperblocks = true)
    (enforced : node.isSporkActive .masternodeBudgetEnforcement = true)
    (checked : ¬ AmountUnchecked budget (tip.nHeight + 1)) :
    MintBounded node budget payments tip := by
  intro state ctx view zerocoinDB block after connected accepted
  rcases (isBlockValueValid_iff found accepted.parent synced superblocks _ _ _).mp accepted.value
    with paid | bounded
  · -- the payee check refuses what the value check lets through
    have voted := (budget.isBudgetPaymentBlock_iff node _ _).mp paid
    have outVoted : budget.OutVoted (tip.nHeight + 1) := by
      by_contra ahead
      exact checked ⟨voted, ahead⟩
    have refused : BudgetRefuses node budget (tip.nHeight + 1) :=
      ⟨voted, outVoted, superblocks, enforced⟩
    have payees := accepted.payees
    rw [isBlockPayeeValid_eq] at payees
    simp [synced, refused] at payees
  · exact Or.inl bounded

end

/-! ## Where it is not -/

/-- A coinbase with the given outputs. -/
def mintingCoinBase (vout : List CTxOut) : CTransaction where
  hash := 100
  vin := [{ prevout := COutPoint.null, scriptSig := [1, 2] }]
  vout

/-- A coinstake with the given outputs after the empty one. -/
def mintingCoinStake (vout : List CTxOut) : CTransaction where
  hash := 101
  vin := [{ prevout := ⟨7, 0⟩ }]
  vout := ⟨0, [], -10⟩ :: vout

/-- The coin that `mintingCoinStake` spends. -/
def worthlessCoin : CoinsMap := fun txid =>
  if txid = 7 then { vout := [⟨0, [0x51], -10⟩], nHeight := 1, nVersion := 1 } else CCoins.clear

/-- The transactions of a block that mints the given outputs. -/
def mintingTxs (staked : Bool) (vout : List CTxOut) : List CTransaction :=
  if staked then [mintingCoinBase [⟨0, [], -10⟩], mintingCoinStake vout]
  else [mintingCoinBase vout]

/-- Outputs without zerocoin mints whose total is in range. -/
structure Mintable (vout : List CTxOut) : Prop where
  nonempty : vout ≠ []
  ordinary : ∀ out ∈ vout, out.isZerocoinMint = false
  nonneg : ∀ out ∈ vout, 0 ≤ out.nValue
  inRange : (vout.map CTxOut.nValue).sum ≤ CTransaction.maxInt64

theorem mintable_empty : Mintable [⟨0, [], -10⟩] :=
  ⟨by decide, by decide, by decide, by decide⟩

section

variable {vout : List CTxOut}

theorem Mintable.any_isZerocoinMint (mintable : Mintable vout) :
    vout.any CTxOut.isZerocoinMint = false := by
  simpa using mintable.ordinary

/-- The coinbase of the example is one. -/
theorem Mintable.isCoinBase (mintable : Mintable vout) :
    (mintingCoinBase vout).isCoinBase = true := by
  have noMint := mintable.any_isZerocoinMint
  simp only [CTransaction.isCoinBase, mintingCoinBase, CTransaction.containsZerocoins,
    CTransaction.hasZerocoinSpendInputs, CTransaction.hasZerocoinMintOutputs, noMint]
  decide

/-- A coinbase has no zerocoins. -/
theorem containsZerocoins_of_isCoinBase {tx : CTransaction} (coinbase : tx.isCoinBase = true) :
    tx.containsZerocoins = false := by
  unfold CTransaction.isCoinBase at coinbase
  split at coinbase
  · simpa using (Bool.and_eq_true_iff.mp coinbase).2
  · cases coinbase

/-- The coinstake of the example is one. -/
theorem Mintable.isCoinStake (mintable : Mintable vout) :
    (mintingCoinStake vout).isCoinStake = true := by
  cases vout with
  | nil => exact (mintable.nonempty rfl).elim
  | cons out rest => rfl

/-- A transaction without zerocoins, fees and value of its inputs only adds to what
comes out. -/
theorem connectTx_of_amounts {tx : CTransaction} {nHeight : Int} {done : List CTransaction}
    {state : ConnectState} {nValueOut : CAmount} {after : CoinsMap} {undo : CTxUndo}
    (plain : tx.containsZerocoins = false)
    (amounts : ConnectContext.permissive.txAmounts state.view tx = some ⟨0, 0, nValueOut⟩)
    (marked : CoinsMap.markSpent tx state.view = some (after, undo)) :
    ConnectContext.permissive.connectTx nHeight done tx state = some (undo, { state with
      view := after.addOutputs tx nHeight
      nValueOut := state.nValueOut + nValueOut }) := by
  rw [CTransaction.containsZerocoins, Bool.or_eq_false_iff] at plain
  have spends : ConnectContext.permissive.coinSpends tx = [] := by
    simpa [ConnectContext.coinSpends, CTransaction.hasZerocoinSpendInputs] using plain.1
  have mints : tx.vout.filter CTxOut.isZerocoinMint = [] := by
    simpa [CTransaction.hasZerocoinMintOutputs] using plain.2
  have admitted : ConnectContext.permissive.admits state.view done tx = true := rfl
  simp [ConnectContext.connectTx, admitted, amounts, ConnectContext.publicCoins, spends, mints,
    CoinsMap.updateCoins, marked]

/-- The coinbase of the example connects. -/
theorem Mintable.connectCoinBase (mintable : Mintable vout) (nHeight : Int)
    (done : List CTransaction) (state : ConnectState) :
    ∃ undo next,
      ConnectContext.permissive.connectTx nHeight done (mintingCoinBase vout) state =
        some (undo, next) ∧
      next.view = state.view.addOutputs (mintingCoinBase vout) nHeight ∧
      next.nValueOut = state.nValueOut + (vout.map CTxOut.nValue).sum ∧
      next.nValueIn = state.nValueIn ∧ next.nFees = state.nFees := by
  have coinbase := mintable.isCoinBase
  have plain := containsZerocoins_of_isCoinBase coinbase
  have total : (mintingCoinBase vout).getValueOut = some (vout.map CTxOut.nValue).sum :=
    CTransaction.getValueOut_eq_some mintable.nonneg mintable.inRange
  have amounts : ConnectContext.permissive.txAmounts state.view (mintingCoinBase vout) =
      some ⟨0, 0, (vout.map CTxOut.nValue).sum⟩ := by
    have noSpends : (mintingCoinBase vout).hasZerocoinSpendInputs = false := rfl
    simp [ConnectContext.txAmounts, total, noSpends, coinbase]
  have marked : CoinsMap.markSpent (mintingCoinBase vout) state.view = some (state.view, {}) := by
    simp [CoinsMap.markSpent, CTransaction.spendsInputs, coinbase]
  exact ⟨_, _, connectTx_of_amounts plain amounts marked, rfl, rfl, rfl, rfl⟩

/-- The coinstake of the example connects. -/
theorem Mintable.connectCoinStake (mintable : Mintable vout) (nHeight : Int)
    (done : List CTransaction) {state : ConnectState} (coin : state.view 7 = worthlessCoin 7) :
    ∃ undo next,
      ConnectContext.permissive.connectTx nHeight done (mintingCoinStake vout) state =
        some (undo, next) ∧
      next.nValueOut = state.nValueOut + (vout.map CTxOut.nValue).sum ∧
      next.nValueIn = state.nValueIn ∧ next.nFees = state.nFees := by
  have stake := mintable.isCoinStake
  have ordinaryInput : (mintingCoinStake vout).isCoinBase = false := rfl
  have noSpends : (mintingCoinStake vout).hasZerocoinSpendInputs = false := rfl
  have plain : (mintingCoinStake vout).containsZerocoins = false := by
    have empty : (⟨0, [], -10⟩ : CTxOut).isZerocoinMint = false := rfl
    rw [CTransaction.containsZerocoins, noSpends, Bool.false_or]
    simp only [CTransaction.hasZerocoinMintOutputs, mintingCoinStake, List.any_cons, empty,
      mintable.any_isZerocoinMint, Bool.or_false]
  have total : (mintingCoinStake vout).getValueOut = some (vout.map CTxOut.nValue).sum := by
    have sum : ((mintingCoinStake vout).vout.map CTxOut.nValue).sum =
        (vout.map CTxOut.nValue).sum := by
      simp [mintingCoinStake]
    rw [← sum]
    exact CTransaction.getValueOut_eq_some (by simpa [mintingCoinStake] using mintable.nonneg)
      (sum.trans_le mintable.inRange)
  have amounts : ConnectContext.permissive.txAmounts state.view (mintingCoinStake vout) =
      some ⟨0, 0, (vout.map CTxOut.nValue).sum⟩ := by
    have there : state.view.haveInputs (mintingCoinStake vout) = true := by
      simp only [CoinsMap.haveInputs, ordinaryInput, noSpends]
      simp only [mintingCoinStake, List.all_cons, List.all_nil, coin]
      decide
    have nothing : state.view.getValueIn (mintingCoinStake vout) = 0 := by
      simp only [CoinsMap.getValueIn, mintingCoinStake, List.map_cons, List.map_nil, coin]
      decide
    simp [ConnectContext.txAmounts, total, noSpends, ordinaryInput, there, nothing, stake]
  obtain ⟨⟨after, undo⟩, marked⟩ : ∃ result,
      CoinsMap.markSpent (mintingCoinStake vout) state.view = some result := by
    rw [← Option.isSome_iff_exists]
    simp only [CoinsMap.markSpent, CTransaction.spendsInputs, ordinaryInput, noSpends]
    simp only [mintingCoinStake, CoinsMap.spendInputs, coin]
    rfl
  exact ⟨_, _, connectTx_of_amounts plain amounts marked, rfl, rfl, rfl⟩

/-- The transactions of a block that mints the given outputs connect. -/
theorem Mintable.connectTxs (mintable : Mintable vout) (staked : Bool) (nHeight : Int) :
    ∃ undos state, ConnectContext.permissive.connectTxs nHeight [] (mintingTxs staked vout)
        { view := worthlessCoin } = some (undos, state) ∧
      state.nValueOut = (vout.map CTxOut.nValue).sum ∧ state.nValueIn = 0 ∧ state.nFees = 0 := by
  cases staked with
  | false =>
      obtain ⟨undo, next, connects, -, valueOut, valueIn, fees⟩ :=
        mintable.connectCoinBase nHeight [] { view := worthlessCoin }
      refine ⟨[undo], next, ?_, by simpa using valueOut, valueIn, fees⟩
      simp [mintingTxs, ConnectContext.connectTxs, connects]
  | true =>
      obtain ⟨undo, middle, first, outputs, valueOut, valueIn, fees⟩ :=
        mintable_empty.connectCoinBase nHeight [] { view := worthlessCoin }
      -- the coinbase leaves the coin of the coinstake alone
      have coin : middle.view 7 = worthlessCoin 7 := by
        simp [outputs, CoinsMap.addOutputs, CoinsMap.modifyCoins, Function.update, mintingCoinBase]
      obtain ⟨record, last, second, total, spent, left⟩ :=
        mintable.connectCoinStake nHeight [mintingCoinBase [⟨0, [], -10⟩]] coin
      refine ⟨[undo, record], last, ?_, ?_, spent.trans valueIn, left.trans fees⟩
      · simp [mintingTxs, ConnectContext.connectTxs, first, second]
      · simp [total, valueOut]

/-- A block that mints the given outputs connects. -/
theorem Mintable.connectBlock (mintable : Mintable vout) (block : CBlock) {staked : Bool}
    (nHeight : Int) (vtx : block.vtx = mintingTxs staked vout) :
    ∃ connected,
      GiantCore.connectBlock .permissive block nHeight worthlessCoin {} = some connected ∧
      connected.nMint = (vout.map CTxOut.nValue).sum ∧ connected.state.nFees = 0 := by
  have shape : block.hasOneCoinBase = true := by
    cases staked with
    | false =>
        simp [CBlock.hasOneCoinBase, vtx, mintingTxs, mintable.isCoinBase]
    | true =>
        rw [CBlock.hasOneCoinBase, vtx]
        rfl
  obtain ⟨undos, state, connects, valueOut, valueIn, fees⟩ := mintable.connectTxs staked nHeight
  rw [← vtx] at connects
  let zerocoinDB : ZerocoinDB :=
    (({} : ZerocoinDB).writeCoinSpendBatch state.vSpends).writeCoinMintBatch state.vMints
  refine ⟨⟨state, undos.tail, zerocoinDB⟩, ?_, ?_, fees⟩
  · simp [GiantCore.connectBlock, shape, connects, zerocoinDB]
  · simp [Connected.nMint, valueOut, valueIn, fees]

end

/-- One output of the amount for each level that has a payee, and another one. -/
def overpayment (payments : CMasternodePayments) (nBlockHeight : Int) (nValue : CAmount) :
    List CTxOut :=
  Level.all.filterMap (fun level => (payments.getBlockPayee nBlockHeight level).map fun payee =>
    { nValue, scriptPubKey := payee }) ++ [{ nValue, scriptPubKey := [] }]

/-- The block that makes the overpayment on the tip. -/
def overpayingBlock (node : NodeContext) (payments : CMasternodePayments) (tip : CBlockIndex)
    (nValue : CAmount) : CBlock where
  hash := 600
  hashPrevBlock := tip.hash
  hashMerkleRoot := 0
  nTime := 0
  nBits := 0
  vtx := mintingTxs (tip.nHeight + 1 > node.params.nLastPOWBlock)
    (overpayment payments (tip.nHeight + 1) nValue)

/-- An amount above the subsidy with any payment of a budget, and no less than any
masternode is due, of which five outputs are in range. The payees of the
height have ordinary scripts. -/
structure Overpays (node : NodeContext) (budget : CBudgetManager) (payments : CMasternodePayments)
    (tip : CBlockIndex) (nValue : CAmount) : Prop where
  ordinary : ∀ payees ∈ payments.mapMasternodeBlocks[tip.nHeight + 1]?,
    ∀ payee ∈ payees.vecPayments, CScript.isZerocoinMint payee.scriptPubKey = false
  due : ∀ payees ∈ payments.mapMasternodeBlocks[tip.nHeight + 1]?, ∀ payee ∈ payees.vecPayments,
    node.getMasternodePayment payee.level (node.params.getBlockValue payees.nBlockHeight) ≤ nValue
  subsidy : node.params.getBlockValue tip.nHeight < nValue
  budgets : ∀ finalized ∈ budget.paying (tip.nHeight + 1),
    ∀ payment ∈ finalized.getBudgetPaymentByBlock (tip.nHeight + 1),
      node.params.getBlockValue tip.nHeight + payment.nAmount < nValue
  inRange : 5 * nValue ≤ CTransaction.maxInt64

section

variable {node : NodeContext} {budget : CBudgetManager} {payments : CMasternodePayments}
  {tip : CBlockIndex} {nValue : CAmount}

/-- An overpayment pays every payee of the block. -/
theorem mem_overpayment {nBlockHeight : Int} {out : CTxOut} :
    out ∈ overpayment payments nBlockHeight nValue ↔
      (∃ level payee, payments.getBlockPayee nBlockHeight level = some payee ∧
        { nValue, scriptPubKey := payee } = out) ∨ out = { nValue, scriptPubKey := [] } := by
  simp only [overpayment, List.mem_append, List.mem_filterMap, Option.map_eq_some_iff,
    List.mem_singleton, Level.mem_all, true_and]

/-- Each of its outputs has the same value. -/
theorem nValue_of_mem_overpayment {nBlockHeight : Int} {out : CTxOut}
    (member : out ∈ overpayment payments nBlockHeight nValue) : out.nValue = nValue := by
  rcases mem_overpayment.mp member with ⟨-, payee, -, rfl⟩ | rfl
  · rfl
  · rfl

/-- The overpayment is the amount, up to five times. -/
theorem sum_overpayment (payments : CMasternodePayments) (nBlockHeight : Int)
    (nonneg : 0 ≤ nValue) :
    nValue ≤ ((overpayment payments nBlockHeight nValue).map CTxOut.nValue).sum ∧
      ((overpayment payments nBlockHeight nValue).map CTxOut.nValue).sum ≤ 5 * nValue := by
  have same : (overpayment payments nBlockHeight nValue).map CTxOut.nValue =
      List.replicate (overpayment payments nBlockHeight nValue).length nValue := by
    refine List.eq_replicate_iff.mpr ⟨List.length_map _, fun value member => ?_⟩
    obtain ⟨out, inside, rfl⟩ := List.mem_map.mp member
    exact nValue_of_mem_overpayment inside
  have length : 1 ≤ (overpayment payments nBlockHeight nValue).length ∧
      (overpayment payments nBlockHeight nValue).length ≤ 5 := by
    have levels := List.length_filterMap_le (fun level =>
      (payments.getBlockPayee nBlockHeight level).map fun payee =>
        ({ nValue, scriptPubKey := payee } : CTxOut)) Level.all
    have four : Level.all.length = 4 := rfl
    simp only [overpayment, List.length_append, List.length_singleton]
    omega
  rw [same, List.sum_replicate_int]
  constructor
  · have once := Int.mul_le_mul_of_nonneg_right (Int.ofNat_le.mpr length.1) nonneg
    simpa using once
  · exact Int.mul_le_mul_of_nonneg_right (Int.ofNat_le.mpr length.2) nonneg

/-- It has an output. -/
theorem overpayment_ne_nil (payments : CMasternodePayments) (nBlockHeight : Int)
    (nValue : CAmount) :
    overpayment payments nBlockHeight nValue ≠ [] :=
  List.append_ne_nil_of_right_ne_nil _ (List.cons_ne_nil _ _)

/-- An overpayment is not negative. -/
theorem Overpays.nonneg (overpays : Overpays node budget payments tip nValue) : 0 ≤ nValue :=
  le_trans (node.params.getBlockValue_bounds tip.nHeight).1 (le_of_lt overpays.subsidy)

/-- Payees are paid by their scripts, which are ordinary. -/
theorem Overpays.isZerocoinMint (overpays : Overpays node budget payments tip nValue) :
    ∀ out ∈ overpayment payments (tip.nHeight + 1) nValue, out.isZerocoinMint = false := by
  intro out member
  rcases mem_overpayment.mp member with ⟨level, payee, voted, rfl⟩ | rfl
  · simp only [CMasternodePayments.getBlockPayee, CMasternodeBlockPayees.getPayee,
      Option.bind_eq_some_iff, Option.map_eq_some_iff] at voted
    obtain ⟨payees, stored, chosen, found, rfl⟩ := voted
    rcases CMasternodeBlockPayees.bestPayee_mem found with start | ⟨inside, -⟩
    · cases start
    · exact overpays.ordinary payees stored chosen inside
  · rfl

/-- Its outputs can be minted. -/
theorem Overpays.mintable (overpays : Overpays node budget payments tip nValue) :
    Mintable (overpayment payments (tip.nHeight + 1) nValue) where
  nonempty := overpayment_ne_nil payments (tip.nHeight + 1) nValue
  ordinary := overpays.isZerocoinMint
  nonneg _ member := (nValue_of_mem_overpayment member).symm ▸ overpays.nonneg
  inRange :=
    le_trans (sum_overpayment payments (tip.nHeight + 1) overpays.nonneg).2 overpays.inRange

/-- The overpayment satisfies every masternode. -/
theorem Overpays.isTransactionValid (overpays : Overpays node budget payments tip nValue)
    (before : List CTxOut) :
    payments.isTransactionValid node (before ++ overpayment payments (tip.nHeight + 1) nValue)
      (tip.nHeight + 1) = true := by
  unfold CMasternodePayments.isTransactionValid
  cases stored : payments.mapMasternodeBlocks[tip.nHeight + 1]? with
  | none => rfl
  | some payees =>
      simp only [CMasternodeBlockPayees.isTransactionValid_iff]
      intro payee member elected
      obtain ⟨chosen, inside, vote, tier, found⟩ :=
        CMasternodeBlockPayees.getPayee_of_elected member elected
      refine ⟨chosen, inside, vote, tier, ?_⟩
      simp only [CMasternodeBlockPayees.isPaid, List.any_eq_true, Bool.and_eq_true, beq_iff_eq,
        decide_eq_true_eq]
      have voted : payments.getBlockPayee (tip.nHeight + 1) payee.level =
          some chosen.scriptPubKey := by
        simp [CMasternodePayments.getBlockPayee, stored, found]
      refine ⟨{ nValue, scriptPubKey := chosen.scriptPubKey }, ?_, rfl,
        overpays.due payees stored chosen inside⟩
      apply List.mem_append_right
      exact mem_overpayment.mpr (Or.inl ⟨payee.level, chosen.scriptPubKey, voted, rfl⟩)

/-- The block that overpays has the proof of its height. -/
theorem Overpays.isProofOfStake (overpays : Overpays node budget payments tip nValue) :
    (overpayingBlock node payments tip nValue).isProofOfStake =
      decide (tip.nHeight + 1 > node.params.nLastPOWBlock) := by
  unfold overpayingBlock CBlock.isProofOfStake mintingTxs
  by_cases staked : tip.nHeight + 1 > node.params.nLastPOWBlock
  · simp only [staked, decide_true, ↓reduceIte]
    exact overpays.mintable.isCoinStake
  · simp [staked]

/-- The payee check reads the transaction that overpays. -/
theorem payee_overpayingBlock (node : NodeContext) (payments : CMasternodePayments)
    (tip : CBlockIndex) (nValue : CAmount) : ∃ txNew before,
    (overpayingBlock node payments tip nValue).vtx[payeeIndex node (tip.nHeight + 1)]? =
        some txNew ∧
      txNew.vout = before ++ overpayment payments (tip.nHeight + 1) nValue := by
  unfold overpayingBlock payeeIndex mintingTxs
  by_cases staked : tip.nHeight + 1 > node.params.nLastPOWBlock
  · refine ⟨mintingCoinStake _, [⟨0, [], -10⟩], ?_, rfl⟩
    simp [staked]
  · refine ⟨mintingCoinBase _, [], ?_, rfl⟩
    simp [staked]

/-- Where no test looks at the amount, the block that overpays is accepted. -/
theorem Overpays.accepted (overpays : Overpays node budget payments tip nValue)
    (found : node.tip = some tip) (synced : node.isSynced = true)
    (superblocks : node.isSporkActive .enableSuperblocks = true)
    (unchecked : AmountUnchecked budget (tip.nHeight + 1)) (state : BudgetState) :
    ∃ connected, Accepted node budget payments tip state .permissive worthlessCoin {}
        (overpayingBlock node payments tip nValue) (checkedBudgetState node state) connected ∧
      nValue ≤ connected.nMint ∧ connected.state.nFees = 0 := by
  have least := (sum_overpayment payments (tip.nHeight + 1) overpays.nonneg).1
  obtain ⟨connected, connects, mint, fees⟩ := overpays.mintable.connectBlock
    (overpayingBlock node payments tip nValue) (tip.nHeight + 1) rfl
  refine ⟨connected, ⟨rfl, ?_, overpays.isProofOfStake, connects, ?_⟩, mint ▸ least, fees⟩
  · obtain ⟨txNew, before, read, outputs⟩ := payee_overpayingBlock node payments tip nValue
    have allowed : ¬ BudgetRefuses node budget (tip.nHeight + 1) := fun refuses =>
      unchecked.2 refuses.2.1
    have paid := overpays.isTransactionValid before
    rw [← outputs] at paid
    simp [isBlockPayeeValid_eq, synced, read, allowed, isMasternodePayeeValid, paid]
  · rw [isBlockValueValid_iff found rfl synced superblocks]
    exact Or.inl ((budget.isBudgetPaymentBlock_iff node _ _).mpr unchecked.1)

/-- **The mint bound.** On a synced node that enforces budgets, the mint of every
block on the tip is bounded where no budget pays with a vote, or where the
budgets make every block invalid. Elsewhere it is not bounded, if there is an
amount that overpays. -/
theorem mintBounded_iff (found : node.tip = some tip) (synced : node.isSynced = true)
    (superblocks : node.isSporkActive .enableSuperblocks = true)
    (enforced : node.isSporkActive .masternodeBudgetEnforcement = true) :
    (¬ AmountUnchecked budget (tip.nHeight + 1) → MintBounded node budget payments tip) ∧
      ((∃ nValue, Overpays node budget payments tip nValue) →
        MintBounded node budget payments tip → ¬ AmountUnchecked budget (tip.nHeight + 1)) := by
  refine ⟨mintBounded_of_checked found synced superblocks enforced, ?_⟩
  intro ⟨nValue, overpays⟩ bounded unchecked
  obtain ⟨connected, accepted, large, fees⟩ :=
    overpays.accepted found synced superblocks unchecked ⟨⟨[]⟩, ∅⟩
  have expected : connected.nExpectedMint node (overpayingBlock node payments tip nValue) tip =
      node.params.getBlockValue tip.nHeight := by
    simp [Connected.nExpectedMint, fees]
  rcases bounded _ _ _ _ _ _ _ accepted with
    within | ⟨-, finalized, pays, payment, scheduled, within⟩
  · rw [expected] at within
    exact absurd (le_trans large within) (not_le.mpr overpays.subsidy)
  · rw [expected] at within
    exact absurd (le_trans large within)
      (not_le.mpr (overpays.budgets finalized pays payment scheduled))

end

/-- One vote for the payee bounds the mint at one height, and not at another. -/
theorem mintBounded_oneVote :
    MintBounded (NodeContext.mainNode 50000) CBudgetManager.oneVote {} ⟨50000, 50000⟩ ∧
      ¬ MintBounded (NodeContext.mainNode 107999) CBudgetManager.oneVote {}
        CBudgetManager.lastOrdinary := by
  have ordinary : ¬ AmountUnchecked CBudgetManager.oneVote 50001 := by decide
  have superblock : AmountUnchecked CBudgetManager.oneVote 108000 := by decide
  have overpays : Overpays (NodeContext.mainNode 107999) CBudgetManager.oneVote {}
      CBudgetManager.lastOrdinary (1000000 * COIN) :=
    ⟨by decide, by decide, by decide, by decide, by decide⟩
  constructor
  · exact (mintBounded_iff (by decide) (by decide) (by decide) (by decide)).1 ordinary
  · intro bounded
    exact (mintBounded_iff (by decide) (by decide) (by decide) (by decide)).2 ⟨_, overpays⟩ bounded
      superblock

/-- A stake of twenty coins that pays out a million. -/
def millionStake : CTransaction where
  hash := 501
  vin := [{ prevout := ⟨7, 0⟩ }]
  vout := [⟨0, [], -10⟩, ⟨1000000 * COIN, [0x52], -10⟩]

/-- A proof-of-stake block at the height where `oneVote` pays. -/
def millionBlock : CBlock :=
  blockOn 107999 [{ plainCoinBase 0 with vout := [⟨0, [], -10⟩] }, millionStake]

/-- A block that passes `CheckBlock` up to the payee check and connects creates a
million coins at a payment of fifty. -/
theorem not_withinAllowance_millionBlock :
    ¬ ∀ (node : NodeContext) (budget : CBudgetManager) (payments : CMasternodePayments)
      (tip : CBlockIndex) (state after : BudgetState) (ctx : ConnectContext) (view : CoinsMap)
      (zerocoinDB : ZerocoinDB) (block : CBlock) (connected : Connected),
      node.tip = some tip → node.isSynced = true →
      node.isSporkActive .masternodePaymentEnforcement = true →
      node.isSporkActive .masternodeBudgetEnforcement = true →
      node.isSporkActive .enableSuperblocks = true →
      (checkBlockPayee node block budget payments true {} state).map Except.toBool = some true →
      Accepted node budget payments tip state ctx view zerocoinDB block after connected →
      WithinAllowance node budget tip block after connected := by
  intro bounded
  let node := NodeContext.mainNode 107999
  let state : BudgetState := { mnodeman := CBudgetManager.twentyNodes }
  have verdict : (isBlockPayeeValid node CBudgetManager.oneVote {} millionBlock 108000 state).map
      Prod.snd = some true := by
    decide
  obtain ⟨⟨after, _⟩, payees, rfl⟩ := Option.map_eq_some_iff.mp verdict
  have mint : (connectBlock .permissive millionBlock 108000 stakedView.coins {}).map
      (fun connected => (connected.nMint, connected.nExpectedMint node millionBlock
        CBudgetManager.lastOrdinary)) = some (999980 * COIN, 20 * COIN) := by
    decide
  obtain ⟨connected, connects, amounts⟩ := Option.map_eq_some_iff.mp mint
  obtain ⟨minted, expected⟩ := Prod.mk.inj amounts
  have found : node.tip = some CBudgetManager.lastOrdinary := by decide
  have superblock : (CBudgetManager.oneVote.isBudgetPaymentBlock node
      (CBudgetManager.lastOrdinary.nHeight + 1) after.mnodeman).2 = true :=
    (CBudgetManager.isBudgetPaymentBlock_iff node _ _ _).mpr (by decide)
  have value : (isBlockValueValid node CBudgetManager.oneVote millionBlock
      (connected.nExpectedMint node millionBlock CBudgetManager.lastOrdinary) connected.nMint
      after.mnodeman).2 = true :=
    (isBlockValueValid_iff found (by decide) (by decide) (by decide) _ _ _).mpr (Or.inl superblock)
  have accepted : Accepted node CBudgetManager.oneVote {} CBudgetManager.lastOrdinary state
      .permissive stakedView.coins {} millionBlock after connected :=
    ⟨by decide, payees, by decide, connects, value⟩
  have within := bounded node _ _ _ state after _ _ _ _ _ found (by decide) (by decide) (by decide)
    (by decide) (by decide) accepted
  rw [WithinAllowance, minted, expected] at within
  rcases within with subsidy | ⟨-, budgeted⟩
  · exact absurd subsidy (by decide)
  · exact absurd budgeted (by decide)

end GiantCore
