import GiantCore.Mining.CoinStake
import GiantCore.Validation.Mint

/-! # The reward of a block

The producer of a block claims a reward, `ConnectBlock` expects one, and the README documents one.
With proof of stake the producer evaluates the schedule at the height of the block, the validator
and the payments at the height before. They agree except at the first block of a period
(`rewardsAgree_iff`).
-/

namespace GiantCore

/-- The tables of the README: the first and the last height of a period, and its reward. -/
def rewardTable : List (Int × Option Int × CAmount) :=
  [(2, some 500, 0), (501, some 20000, 10 * COIN), (20001, some 40000, 15 * COIN),
    (40001, some 71400, 20 * COIN), (71401, some 262800, 20 * COIN),
    (262801, some 525600, 10 * COIN), (525601, some 788400, 8 * COIN),
    (788401, some 1051200, 6 * COIN), (1051201, some 1314000, 4 * COIN), (1314001, none, 2 * COIN)]

/-- The documented reward of a block. -/
def documentedReward (nHeight : Int) : Option CAmount :=
  (rewardTable.find? fun (first, last, _) => first ≤ nHeight && last.all (nHeight ≤ ·)).map
    fun (_, _, reward) => reward

/-- The first blocks of the periods of proof of stake with a lower reward. -/
def rewardSteps : List Int := [262801, 525601, 788401, 1051201, 1314001]

/-- A height is in one of the documented periods. -/
theorem period_cases (nHeight : Int) :
    nHeight ≤ 500 ∨ 501 ≤ nHeight ∧ nHeight ≤ 20000 ∨ 20001 ≤ nHeight ∧ nHeight ≤ 40000 ∨
      40001 ≤ nHeight ∧ nHeight ≤ 71400 ∨ 71401 ≤ nHeight ∧ nHeight ≤ 262800 ∨
      262801 ≤ nHeight ∧ nHeight ≤ 525600 ∨ 525601 ≤ nHeight ∧ nHeight ≤ 788400 ∨
      788401 ≤ nHeight ∧ nHeight ≤ 1051200 ∨ 1051201 ≤ nHeight ∧ nHeight ≤ 1314000 ∨
      1314001 ≤ nHeight := by
  omega

/-- The documented schedule is the code's at the height of a block, and in the phase of proof of
work at the height before. -/
theorem documentedReward_eq {nHeight : Int} (second : 2 ≤ nHeight) :
    documentedReward nHeight = some (CChainParams.main.getBlockValue
      (if nHeight ≤ 71400 then nHeight - 1 else nHeight)) := by
  have main : CChainParams.main.networkID ≠ .testnet := by decide
  simp only [documentedReward, rewardTable, List.find?_cons, List.find?_nil, Option.all_some,
    Option.all_none, Bool.and_true, CChainParams.getBlockValue, main, if_false]
  rcases period_cases nHeight with _ | _ | _ | _ | _ | _ | _ | _ | _ | _ <;>
    simp (disch := omega) only [decide_eq_true, decide_eq_false, if_pos, if_neg, Bool.and_true,
      Bool.and_false, Option.map_some, Int.zero_mul]

/-- The schedule changes between two blocks of proof of stake at the steps alone. -/
theorem getBlockValue_eq_iff {nHeight : Int} (staked : 71400 < nHeight) :
    CChainParams.main.getBlockValue (nHeight - 1) = CChainParams.main.getBlockValue nHeight ↔
      nHeight ∉ rewardSteps := by
  have steps : nHeight ∉ rewardSteps ↔ nHeight ≠ 262801 ∧ nHeight ≠ 525601 ∧ nHeight ≠ 788401 ∧
      nHeight ≠ 1051201 ∧ nHeight ≠ 1314001 := by
    simp [rewardSteps]
  constructor
  · intro same
    rw [steps]
    refine ⟨?_, ?_, ?_, ?_, ?_⟩ <;> rintro rfl <;> exact absurd same (by decide)
  · intro outside
    rw [steps] at outside
    have main : CChainParams.main.networkID ≠ .testnet := by decide
    simp only [CChainParams.getBlockValue, main, if_false]
    rcases period_cases nHeight with _ | _ | _ | _ | _ | _ | _ | _ | _ | _ <;>
      simp (disch := omega) only [if_pos, if_neg]

/-! ## What is deducted -/

namespace CMasternodePayments

variable (node : NodeContext) (payments : CMasternodePayments) (mnodeman : CMasternodeMan)

/-- The outputs of some levels are worth at most what the levels get. -/
theorem sum_levelOutput_le (tip : CBlockIndex)
    (nonneg : ∀ level, 0 ≤ levelPayment node tip level) (levels : List Level) :
    ((levels.filterMap (payments.levelOutput node mnodeman tip)).map CTxOut.nValue).sum ≤
      (levels.map (levelPayment node tip)).sum := by
  induction levels with
  | nil => exact Int.le_refl 0
  | cons level rest ih =>
      cases served : payments.levelOutput node mnodeman tip level with
      | none =>
          rw [List.filterMap_cons_none served, List.map_cons, List.sum_cons]
          exact le_trans ih (Int.le_add_of_nonneg_left (nonneg level))
      | some out =>
          rw [List.filterMap_cons_some served, List.map_cons, List.sum_cons, List.map_cons,
            List.sum_cons]
          refine Int.add_le_add ?_ ih
          unfold levelOutput at served
          split at served
          · cases served
          · obtain ⟨payee, -, rfl⟩ := Option.map_eq_some_iff.mp served
            exact Int.le_refl _

/-- What a level of the main network gets. -/
def share (nBlockValue : Int) : Level → Int
  | .masternode => nBlockValue * 16 / 100
  | .supernode => nBlockValue * 64 / 100
  | .deprecated => nBlockValue * 80 / 100
  | .unknown => 0

theorem levelPayment_eq (main : node.params = CChainParams.main) (tip : CBlockIndex) :
    levelPayment node tip = share (node.params.getBlockValue tip.nHeight) := by
  funext level
  cases level <;> simp only [levelPayment, NodeContext.getMasternodePayment, main] <;> rfl

/-- The levels that are paid are the two tiers or the deprecated one. -/
theorem levels_cases (height : Int) :
    node.levels height = [.masternode, .supernode] ∨ node.levels height = [.deprecated] := by
  unfold NodeContext.levels NodeContext.beginLevel NodeContext.endLevel
  cases node.params.isTiersMasternodeEnabled height with
  | true => exact Or.inl (by decide)
  | false => exact Or.inr (by decide)

/-- **The share of the masternodes.** On the main network `FillBlockPayee` deducts at most four
fifths of the reward of the tip. -/
theorem fillBlockPayee_le (main : node.params = CChainParams.main) {tip : CBlockIndex}
    (found : node.tip = some tip) (vout : List CTxOut) :
    (payments.fillBlockPayee node vout mnodeman).nReward ≤
      node.params.getBlockValue tip.nHeight * 80 / 100 := by
  have positive : (0 : Int) ≤ node.params.getBlockValue tip.nHeight :=
    (node.params.getBlockValue_bounds tip.nHeight).1
  have bound := sum_levelOutput_le node payments mnodeman tip
  rw [levelPayment_eq node main] at bound
  rw [fillBlockPayee_nReward node payments found vout]
  generalize node.params.getBlockValue tip.nHeight = nBlockValue at positive bound ⊢
  have shares : ∀ level, 0 ≤ share nBlockValue level := by
    intro level
    cases level <;> simp only [share] <;> omega
  have whole : ((node.levels node.height).map (share nBlockValue)).sum ≤
      nBlockValue * 80 / 100 := by
    rcases levels_cases node node.height with tiers | deprecated
    · rw [tiers]
      simp only [List.map_cons, List.map_nil, List.sum_cons, List.sum_nil, share]
      omega
    · rw [deprecated]
      simp only [List.map_cons, List.map_nil, List.sum_cons, List.sum_nil, share]
      omega
  unfold servedLevels
  split
  · rename_i unpaid
    rw [List.filterMap_append, List.map_append, List.sum_append, unpaid.1, Int.zero_add]
    exact le_trans (bound shares _) (by simp [share])
  · rw [List.append_nil]
    exact le_trans (bound shares _) whole

end CMasternodePayments

/-! ## Agreement -/

namespace StakeWallet

variable (wallet : StakeWallet)

/-- The value that `CreateNewBlock` gives the coinbase in the phase of proof of work. -/
def coinbaseReward (pindexPrev : CBlockIndex) : CAmount :=
  wallet.node.params.getBlockValue pindexPrev.nHeight

/-- The reward that the producer of the block after the tip claims. -/
def claimedReward (pindexPrev : CBlockIndex) : CAmount :=
  if pindexPrev.nHeight < wallet.node.params.nLastPOWBlock then wallet.coinbaseReward pindexPrev
  else wallet.nReward

/-- The block after the tip has one reward: what its producer claims, what `ConnectBlock` expects,
the fees aside, and what is documented. What the masternodes are paid does not exceed it, so that a
stake is whole after it. -/
structure RewardsAgree (pindexPrev : CBlockIndex) : Prop where
  expected : ∀ (connected : Connected) (block : CBlock),
    connected.nExpectedMint wallet.node block pindexPrev = wallet.claimedReward pindexPrev +
      if block.isProofOfWork then connected.state.nFees else 0
  documented : documentedReward (pindexPrev.nHeight + 1) = some (wallet.claimedReward pindexPrev)
  paid : ∀ vout, (wallet.fillBlockPayee vout).2 ≤ wallet.claimedReward pindexPrev
  whole : wallet.node.params.nLastPOWBlock ≤ pindexPrev.nHeight → ∀ attempt vout,
    attempt.coin.nValue ≤ wallet.credit attempt - (wallet.fillBlockPayee vout).2

theorem four_fifths_le {amount : Int} (positive : 0 ≤ amount) : amount * 80 / 100 ≤ amount := by
  omega

variable {wallet} in
/-- Outside budget blocks `FillBlockPayee` deducts at most the reward of the tip. -/
theorem fillBlockPayee_le {pindexPrev : CBlockIndex} (main : wallet.node.params = CChainParams.main)
    (tip : wallet.node.tip = some pindexPrev)
    (outside : (wallet.node.isSporkActive .enableSuperblocks &&
      (wallet.budget.isBudgetPaymentBlock wallet.node (pindexPrev.nHeight + 1)
        wallet.mnodeman).2) = false) (vout : List CTxOut) :
    (wallet.fillBlockPayee vout).2 ≤ wallet.node.params.getBlockValue pindexPrev.nHeight := by
  have positive : (0 : Int) ≤ wallet.node.params.getBlockValue pindexPrev.nHeight :=
    (wallet.node.params.getBlockValue_bounds pindexPrev.nHeight).1
  have share := wallet.payments.fillBlockPayee_le wallet.node wallet.mnodeman main tip vout
  simp only [fillBlockPayee, tip, outside, Bool.false_eq_true, if_false]
  exact le_trans share (four_fifths_le positive)

/-- The payments leave the stake whole if they do not exceed the reward. -/
theorem le_credit_sub {paid : Int} (attempt : StakeAttempt) (covered : paid ≤ wallet.nReward) :
    attempt.coin.nValue ≤ wallet.credit attempt - paid :=
  Int.le_sub_right_of_add_le (Int.add_le_add_left covered _)

/-- **The rewards agree** on the main network, outside budget blocks, except at the first block of
each lower reward. -/
theorem rewardsAgree_iff {pindexPrev : CBlockIndex} (main : wallet.node.params = CChainParams.main)
    (tip : wallet.node.tip = some pindexPrev) (second : 2 ≤ pindexPrev.nHeight + 1)
    (outside : (wallet.node.isSporkActive .enableSuperblocks &&
      (wallet.budget.isBudgetPaymentBlock wallet.node (pindexPrev.nHeight + 1)
        wallet.mnodeman).2) = false) :
    wallet.RewardsAgree pindexPrev ↔ pindexPrev.nHeight + 1 ∉ rewardSteps := by
  have paid := fillBlockPayee_le main tip outside
  have documented := documentedReward_eq second
  have lastPOW : wallet.node.params.nLastPOWBlock = 71400 := by
    rw [main]
    rfl
  have height : wallet.node.height = pindexPrev.nHeight := by
    rw [NodeContext.height, tip]
    rfl
  by_cases mined : pindexPrev.nHeight < 71400
  · have claimed : wallet.claimedReward pindexPrev =
        wallet.node.params.getBlockValue pindexPrev.nHeight := by
      rw [claimedReward, lastPOW, if_pos mined, coinbaseReward]
    refine iff_of_true ⟨fun connected block => ?_, ?_, fun vout => ?_, fun late => ?_⟩ ?_
    · rw [claimed, Connected.nExpectedMint]
    · rw [documented, if_pos (by omega), claimed, main, Int.add_sub_cancel]
    · rw [claimed]
      exact paid vout
    · omega
    · simp only [rewardSteps, List.mem_cons, List.not_mem_nil, or_false]
      omega
  · have claimed : wallet.claimedReward pindexPrev = wallet.nReward := by
      rw [claimedReward, lastPOW, if_neg mined]
    have reward : wallet.nReward =
        CChainParams.main.getBlockValue (pindexPrev.nHeight + 1) := by
      rw [nReward, main, height]
    have staked : 71400 < pindexPrev.nHeight + 1 := by omega
    rw [← getBlockValue_eq_iff staked, Int.add_sub_cancel, ← reward, ← main]
    constructor
    · intro agree
      have expected := agree.expected ⟨{ view := fun _ => {} }, [], {}⟩
        { hash := 0, hashPrevBlock := 0, hashMerkleRoot := 0, nTime := 0, nBits := 0, vtx := [] }
      rw [Connected.nExpectedMint, claimed] at expected
      exact (Int.add_left_inj _).mp expected
    · intro same
      refine ⟨fun connected block => ?_, ?_, fun vout => ?_, fun _ attempt vout => ?_⟩
      · rw [claimed, Connected.nExpectedMint, same]
      · rw [documented, if_neg (by omega), claimed, reward]
      · rw [claimed, ← same]
        exact paid vout
      · exact wallet.le_credit_sub attempt (same ▸ paid vout)

theorem rewardsAgree_stakingWallet : stakingWallet.RewardsAgree ⟨300000, 300000⟩ :=
  (rewardsAgree_iff stakingWallet rfl (by decide) (by decide) (by decide +kernel)).mpr (by decide)

/-- A wallet at the last block with twenty coins, with a masternode to pay. -/
def walletBeforeStep : StakeWallet :=
  { stakingWallet with
    node := NodeContext.mainNode 262800
    payments := CMasternodePayments.sixVotes 262801 }

/-- At a step the masternodes are paid a share of the old reward, which is more than the new one. -/
theorem not_rewardsAgree_step :
    ¬ ∀ (wallet : StakeWallet) (pindexPrev : CBlockIndex),
      wallet.node.params = CChainParams.main → wallet.node.tip = some pindexPrev →
        2 ≤ pindexPrev.nHeight + 1 → (wallet.node.isSporkActive .enableSuperblocks &&
          (wallet.budget.isBudgetPaymentBlock wallet.node (pindexPrev.nHeight + 1)
            wallet.mnodeman).2) = false → wallet.RewardsAgree pindexPrev := by
  intro always
  have agree := always walletBeforeStep ⟨262800, 262800⟩ rfl (by decide) (by decide)
    (by decide +kernel)
  have deducted : (walletBeforeStep.fillBlockPayee []).2 = 16 * COIN := by decide +kernel
  have claimed : walletBeforeStep.claimedReward ⟨262800, 262800⟩ = 10 * COIN := by decide +kernel
  have paid := agree.paid []
  rw [deducted, claimed] at paid
  exact absurd paid (by decide)

end StakeWallet

end GiantCore
