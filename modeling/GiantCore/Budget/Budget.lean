import GiantCore.Masternode.Masternode

/-! # Finalized budgets

The finalized budgets of `masternode-budget.cpp` and the decisions that block
production and block validation take from them: whether a height is a budget
payment block, what the producer pays there, and how the validator judges a
transaction. The validator records payments in a global history
(`mapPayment_History`), and counting masternodes checks them, so the decisions
pass a `BudgetState` along.

The five percent threshold is computed by `CountEnabled(ActiveProtocol())`,
whose first parameter is a level. No masternode has that level, the count is
zero, and the threshold with it. The results below follow from this.
-/

namespace GiantCore

open GiantCore.Foundation

/-- One payment of a finalized budget. -/
structure CTxBudgetPayment where
  nProposalHash : Uint256
  payee : CScript
  nAmount : CAmount
  deriving DecidableEq, Repr

/-- A masternode's vote for a finalized budget. -/
structure CFinalizedBudgetVote where
  vin : CTxIn
  nBudgetHash : Uint256
  nTime : Int
  vchSig : List UInt8 := []
  deriving DecidableEq, Repr

/-- A finalized budget: one payment for each block from `nBlockStart` on. -/
structure CFinalizedBudget where
  nBlockStart : Int
  vecBudgetPayments : List CTxBudgetPayment
  mapVotes : Std.ExtTreeMap Uint256 CFinalizedBudgetVote := ∅

/-- The verdict on a transaction of a budget payment block. -/
inductive TrxValidationStatus where
  | inValid
  | valid
  | doublePayment
  | voteThreshold
  deriving DecidableEq, Repr

/-- The payment history: the height at which each proposal was paid. -/
abbrev PaymentHistory := Std.ExtTreeMap Uint256 Int

namespace CFinalizedBudget

variable (budget : CFinalizedBudget)

def getBlockEnd : Int := budget.nBlockStart + (budget.vecBudgetPayments.length - 1)

def getVoteCount : Int := budget.mapVotes.size

/-- The budget pays at this height. -/
def inRange (nBlockHeight : Int) : Bool :=
  budget.nBlockStart ≤ nBlockHeight && nBlockHeight ≤ budget.getBlockEnd

/-- The payment at a height, `GetBudgetPaymentByBlock`. -/
def getBudgetPaymentByBlock (nBlockHeight : Int) : Option CTxBudgetPayment :=
  let i := nBlockHeight - budget.nBlockStart
  if i < 0 then none
  else if i > budget.vecBudgetPayments.length - 1 then none
  else budget.vecBudgetPayments[i.toNat]?

/-- `IsPaidAlready`: forget the payments of other cycles, then look the proposal
up and record it if it is not there. -/
def isPaidAlready (nProposalHash : Uint256) (nBlockHeight : Int) (history : PaymentHistory) :
    Bool × PaymentHistory :=
  let current := history.filter fun _ nPaidBlockHeight =>
    !(nPaidBlockHeight < budget.nBlockStart || nPaidBlockHeight > budget.getBlockEnd)
  if current.contains nProposalHash then (true, current)
  else (false, current.insert nProposalHash nBlockHeight)

/-- The loop over the outputs in `IsTransactionValid`. -/
def checkOutputs (payment : CTxBudgetPayment) (nBlockHeight : Int) :
    List CTxOut → TrxValidationStatus → PaymentHistory → TrxValidationStatus × PaymentHistory
  | [], status, history => (status, history)
  | out :: rest, status, history =>
      if payment.payee == out.scriptPubKey && payment.nAmount == out.nValue then
        match budget.isPaidAlready payment.nProposalHash nBlockHeight history with
        | (true, history) => (.doublePayment, history)
        | (false, history) => checkOutputs payment nBlockHeight rest .valid history
      else checkOutputs payment nBlockHeight rest status history

/-- `IsTransactionValid` of one budget. -/
def isTransactionValid (vout : List CTxOut) (nBlockHeight : Int) (history : PaymentHistory) :
    TrxValidationStatus × PaymentHistory :=
  match budget.getBudgetPaymentByBlock nBlockHeight with
  | none => (.inValid, history)
  | some payment => budget.checkOutputs payment nBlockHeight vout .inValid history

end CFinalizedBudget

/-- The budget manager. -/
structure CBudgetManager where
  mapFinalizedBudgets : Std.ExtTreeMap Uint256 CFinalizedBudget := ∅

/-- The state that budget decisions change. -/
structure BudgetState where
  mnodeman : CMasternodeMan
  mapPaymentHistory : PaymentHistory := ∅

namespace CBudgetManager

variable (node : NodeContext) (budget : CBudgetManager)

/-- The budgets in the order of the map. -/
def finalizedBudgets : List CFinalizedBudget := budget.mapFinalizedBudgets.toList.map Prod.snd

/-- The highest vote count of the budgets that pay at a height, or `start`. -/
def highestCount (start : Int) (nBlockHeight : Int) : Int :=
  (RunningMax.scan (CFinalizedBudget.inRange · nBlockHeight) CFinalizedBudget.getVoteCount
    (start, none) budget.finalizedBudgets).1

/-- `IsBudgetPaymentBlock`. -/
def isBudgetPaymentBlock (nBlockHeight : Int) (mnodeman : CMasternodeMan) :
    CMasternodeMan × Bool :=
  let (mnodeman, count) := mnodeman.countEnabled node node.activeProtocol (-1)
  let nFivePercent : Int := count / 20
  (mnodeman, nFivePercent < budget.highestCount (-1) nBlockHeight)

/-- The second loop of `IsTransactionValid`, with its early return. -/
def checkBudgets (nCountThreshold : Int) (vout : List CTxOut) (nBlockHeight : Int) :
    List CFinalizedBudget → TrxValidationStatus → Bool → PaymentHistory →
      TrxValidationStatus × PaymentHistory
  | [], status, fThreshold, history => (if fThreshold then status else .voteThreshold, history)
  | finalized :: rest, status, fThreshold, history =>
      if finalized.getVoteCount > nCountThreshold then
        if finalized.inRange nBlockHeight then
          match finalized.isTransactionValid vout nBlockHeight history with
          | (.valid, history) => (.valid, history)
          | (status, history) =>
              checkBudgets nCountThreshold vout nBlockHeight rest status true history
        else checkBudgets nCountThreshold vout nBlockHeight rest status true history
      else checkBudgets nCountThreshold vout nBlockHeight rest status fThreshold history

/-- `IsTransactionValid`. -/
def isTransactionValid (vout : List CTxOut) (nBlockHeight : Int) (state : BudgetState) :
    BudgetState × TrxValidationStatus :=
  let (mnodeman, count) := state.mnodeman.countEnabled node node.activeProtocol (-1)
  let nHighestCount := budget.highestCount 0 nBlockHeight
  let nFivePercent : Int := count / 20
  if nHighestCount < nFivePercent then ({ state with mnodeman }, .inValid)
  else
    let (mnodeman, count) := mnodeman.countEnabled node node.activeProtocol (-1)
    let nCountThreshold := nHighestCount - count / 10
    let (status, mapPaymentHistory) := checkBudgets nCountThreshold vout nBlockHeight
      budget.finalizedBudgets .inValid false state.mapPaymentHistory
    ({ mnodeman, mapPaymentHistory }, status)

/-- `FillBlockPayee`: the outputs with the payment of the budget with the most
votes, and its amount. Without a tip nothing happens. -/
def fillBlockPayee (vout : List CTxOut) (fProofOfStake : Bool) : List CTxOut × CAmount :=
  match node.tip with
  | none => (vout, 0)
  | some tip =>
      let nBlockHeight := tip.nHeight + 1
      let eligible := fun finalized : CFinalizedBudget =>
        finalized.inRange nBlockHeight && (finalized.getBudgetPaymentByBlock nBlockHeight).isSome
      let (nHighestCount, pick) := RunningMax.scan eligible CFinalizedBudget.getVoteCount
        (0, none) budget.finalizedBudgets
      let payment := ((pick.bind (·.getBudgetPaymentByBlock nBlockHeight)).getD ⟨0, [], 0⟩)
      let blockValue := node.params.getBlockValue tip.nHeight
      if fProofOfStake then
        (if nHighestCount > 0 then
            vout ++ [{ nValue := payment.nAmount, scriptPubKey := payment.payee }]
          else vout, payment.nAmount)
      else
        -- miners get the full amount on these blocks
        let reward := vout.modify 0 fun out => { out with nValue := blockValue }
        let resized := (reward ++ List.replicate (2 - reward.length) CTxOut.null).take 2
        (if nHighestCount > 0 then
            resized.modify 1 fun out =>
              { out with nValue := payment.nAmount, scriptPubKey := payment.payee }
          else reward, payment.nAmount)

end CBudgetManager

/-! ## The threshold -/

namespace CMasternodeMan

/-- The call that is meant to count the masternodes of the active protocol. -/
theorem countEnabled_eq (node : NodeContext) (mnodeman : CMasternodeMan) :
    mnodeman.countEnabled node node.activeProtocol (-1) = (mnodeman.checkAll node, 0) :=
  Prod.ext rfl (mnodeman.countEnabled_activeProtocol node (-1))

end CMasternodeMan

namespace CBudgetManager

variable (node : NodeContext) (budget : CBudgetManager)

/-- The finalized budgets that pay at a height. -/
def paying (nBlockHeight : Int) : List CFinalizedBudget :=
  budget.finalizedBudgets.filter (CFinalizedBudget.inRange · nBlockHeight)

theorem lt_highestCount_iff {start threshold : Int} (below : start ≤ threshold)
    (nBlockHeight : Int) :
    threshold < budget.highestCount start nBlockHeight ↔
      ∃ finalized ∈ budget.paying nBlockHeight, threshold < finalized.getVoteCount := by
  simp only [highestCount, RunningMax.lt_scan_iff _ _ (start, none) below, paying,
    List.mem_filter, and_assoc]

/-- A budget payment block is a block at which a budget with any vote pays. -/
theorem isBudgetPaymentBlock_iff (nBlockHeight : Int) (mnodeman : CMasternodeMan) :
    (budget.isBudgetPaymentBlock node nBlockHeight mnodeman).2 = true ↔
      ∃ finalized ∈ budget.paying nBlockHeight, 0 < finalized.getVoteCount := by
  simp only [isBudgetPaymentBlock, CMasternodeMan.countEnabled_eq, decide_eq_true_eq]
  exact budget.lt_highestCount_iff (by decide) nBlockHeight

/-- The number of enabled masternodes with the active protocol. -/
def enabledCount (mnodeman : CMasternodeMan) : Nat :=
  (mnodeman.countEnabled node Level.unknown.toInt node.activeProtocol).2

/-- A budget that pays has more votes than a twentieth of the enabled
masternodes. -/
def FivePercentRule (nBlockHeight : Int) (mnodeman : CMasternodeMan) : Prop :=
  ∃ finalized ∈ budget.paying nBlockHeight,
    (enabledCount node mnodeman : Int) < 20 * finalized.getVoteCount

instance (nBlockHeight : Int) (mnodeman : CMasternodeMan) :
    Decidable (budget.FivePercentRule node nBlockHeight mnodeman) :=
  inferInstanceAs (Decidable (∃ finalized ∈ budget.paying nBlockHeight,
    (enabledCount node mnodeman : Int) < 20 * finalized.getVoteCount))

/-- The best supported budget that pays has a vote, but no more than a twentieth
of the enabled masternodes. -/
def UnderSupported (nBlockHeight : Int) (mnodeman : CMasternodeMan) : Prop :=
  (∃ finalized ∈ budget.paying nBlockHeight, 0 < finalized.getVoteCount) ∧
    ∀ finalized ∈ budget.paying nBlockHeight,
      20 * finalized.getVoteCount ≤ (enabledCount node mnodeman : Int)

/-- **The five percent rule.** `IsBudgetPaymentBlock` follows it exactly when the
best supported budget has no vote at all or clears the five percent. -/
theorem isBudgetPaymentBlock_fivePercentRule_iff (nBlockHeight : Int)
    (mnodeman : CMasternodeMan) :
    ((budget.isBudgetPaymentBlock node nBlockHeight mnodeman).2 = true ↔
      budget.FivePercentRule node nBlockHeight mnodeman) ↔
      ¬ budget.UnderSupported node nBlockHeight mnodeman := by
  rw [isBudgetPaymentBlock_iff]
  constructor
  · intro rule ⟨voted, small⟩
    obtain ⟨finalized, pays, large⟩ := rule.mp voted
    exact absurd large (not_lt.mpr (small finalized pays))
  · intro supported
    constructor
    · intro voted
      by_contra broken
      refine supported ⟨voted, fun finalized pays => ?_⟩
      exact not_lt.mp fun large => broken ⟨finalized, pays, large⟩
    · intro ⟨finalized, pays, large⟩
      refine ⟨finalized, pays, ?_⟩
      have count : (0 : Int) ≤ enabledCount node mnodeman := Int.natCast_nonneg _
      omega

/-- One budget at the start of a cycle, with one payment and one vote. -/
def oneVote : CBudgetManager where
  mapFinalizedBudgets := (∅ : Std.ExtTreeMap Uint256 CFinalizedBudget).insert 1
    { nBlockStart := 108000
      vecBudgetPayments := [⟨7, [0x51], 50 * COIN⟩]
      mapVotes := (∅ : Std.ExtTreeMap Uint256 CFinalizedBudgetVote).insert 2
        { vin := { prevout := ⟨1000, 0⟩ }, nBudgetHash := 1, nTime := 1599990000 } }

/-- Twenty enabled masternodes of the first tier. -/
def twentyNodes : CMasternodeMan :=
  ⟨(List.range 20).map fun index => CMasternode.enabledNode index (1000 * COIN)⟩

/-- One vote of twenty is no more than five percent, and still makes a budget
payment block. -/
theorem not_fivePercentRule_oneVote :
    ¬ ∀ (node : NodeContext) (budget : CBudgetManager) (nBlockHeight : Int)
      (mnodeman : CMasternodeMan),
      (budget.isBudgetPaymentBlock node nBlockHeight mnodeman).2 = true ↔
        budget.FivePercentRule node nBlockHeight mnodeman := by
  intro rule
  have superblock :
      (oneVote.isBudgetPaymentBlock (NodeContext.mainNode 107999) 108000 twentyNodes).2 = true := by
    decide
  have followed := (rule _ _ _ _).mp superblock
  revert followed
  decide

/-! ## The verdict on a transaction -/

/-- Some budget has more votes than every budget that pays. Such a budget does not
pay itself. -/
def OutVoted (nBlockHeight : Int) : Prop :=
  ∃ other ∈ budget.finalizedBudgets, 0 < other.getVoteCount ∧
    ∀ finalized ∈ budget.paying nBlockHeight, finalized.getVoteCount < other.getVoteCount

theorem outVoted_iff (nBlockHeight : Int) :
    budget.OutVoted nBlockHeight ↔ ∃ finalized ∈ budget.finalizedBudgets,
      budget.highestCount 0 nBlockHeight < finalized.getVoteCount := by
  simp only [OutVoted, highestCount, RunningMax.scan_lt_iff, paying, List.mem_filter, and_imp]

instance (nBlockHeight : Int) : Decidable (budget.OutVoted nBlockHeight) :=
  decidable_of_iff _ (budget.outVoted_iff nBlockHeight).symm

/-- Above a threshold that no paying budget exceeds, the second loop looks at no
transaction. -/
theorem checkBudgets_of_le {nCountThreshold nBlockHeight : Int} (vout : List CTxOut)
    (budgets : List CFinalizedBudget)
    (low : ∀ finalized ∈ budgets, finalized.inRange nBlockHeight = true →
      finalized.getVoteCount ≤ nCountThreshold)
    (fThreshold : Bool) (history : PaymentHistory) :
    checkBudgets nCountThreshold vout nBlockHeight budgets .inValid fThreshold history =
      (if fThreshold || budgets.any (fun finalized =>
          decide (nCountThreshold < finalized.getVoteCount)) then .inValid
        else .voteThreshold, history) := by
  induction budgets generalizing fThreshold with
  | nil => simp [checkBudgets]
  | cons finalized rest ih =>
      have lowRest := fun other member => low other (List.mem_cons_of_mem finalized member)
      rw [checkBudgets]
      by_cases above : nCountThreshold < finalized.getVoteCount
      · have outside : ¬ finalized.inRange nBlockHeight = true := fun pays =>
          absurd above (not_lt.mpr (low finalized List.mem_cons_self pays))
        rw [if_pos above, if_neg outside, ih lowRest]
        simp [above]
      · rw [if_neg above, ih lowRest]
        simp [above]

/-- **The verdict.** No budget that pays exceeds the threshold, so the outputs are
never looked at and the history is never touched. -/
theorem isTransactionValid_eq (vout : List CTxOut) (nBlockHeight : Int) (state : BudgetState) :
    budget.isTransactionValid node vout nBlockHeight state =
      ({ state with mnodeman := state.mnodeman.checkAll node },
        if budget.OutVoted nBlockHeight then .inValid else .voteThreshold) := by
  have start : 0 ≤ budget.highestCount 0 nBlockHeight := (RunningMax.le_scan _ _ (0, none) _).1
  have low : ∀ finalized ∈ budget.finalizedBudgets, finalized.inRange nBlockHeight = true →
      finalized.getVoteCount ≤ budget.highestCount 0 nBlockHeight - ((0 : Nat) : Int) / 10 := by
    intro finalized member pays
    have bound := RunningMax.score_le_scan (CFinalizedBudget.inRange · nBlockHeight)
      CFinalizedBudget.getVoteCount (0, none) member pays
    simpa [highestCount] using bound
  simp only [isTransactionValid, CMasternodeMan.countEnabled_eq, CMasternodeMan.checkAll_checkAll]
  rw [if_neg (by simpa using start), checkBudgets_of_le vout _ low]
  simp [outVoted_iff]

/-- **The producer's budget block is never valid.** Whatever the producer appends
for a budget payment block, the validator does not call it valid. -/
theorem isTransactionValid_filled_ne_valid {tip : CBlockIndex} {vout : List CTxOut}
    {payment : CTxOut} {mnodeman : CMasternodeMan} (_tip : node.tip = some tip)
    (_superblock : (budget.isBudgetPaymentBlock node (tip.nHeight + 1) mnodeman).2 = true)
    (_filled : (budget.fillBlockPayee node vout true).1 = vout ++ [payment]) :
    (budget.isTransactionValid node (vout ++ [payment]) (tip.nHeight + 1) { mnodeman }).2 ≠
      .valid := by
  rw [isTransactionValid_eq]
  split <;> simp

/-- The block before the payment of `oneVote`. -/
def lastOrdinary : CBlockIndex := ⟨107999, 107999⟩

/-- The outputs of a coinstake before the producer adds payments. -/
def stakeOutputs : List CTxOut := [⟨0, [], -10⟩, ⟨100 * COIN, [0x52], -10⟩]

theorem isTransactionValid_filled_oneVote :
    (oneVote.isTransactionValid (NodeContext.mainNode 107999)
      (stakeOutputs ++ [⟨50 * COIN, [0x51], -10⟩]) (lastOrdinary.nHeight + 1)
      { mnodeman := twentyNodes }).2 ≠ .valid := by
  have tip : (NodeContext.mainNode 107999).tip = some lastOrdinary := by decide
  exact isTransactionValid_filled_ne_valid _ _ tip (by decide) (by decide)

/-- The producer pays the one budget there is, and the validator refuses. -/
theorem not_agreement_oneVote :
    ¬ ∀ (node : NodeContext) (budget : CBudgetManager) (tip : CBlockIndex) (vout : List CTxOut)
      (payment : CTxOut) (mnodeman : CMasternodeMan), node.tip = some tip →
      (budget.isBudgetPaymentBlock node (tip.nHeight + 1) mnodeman).2 = true →
      (budget.fillBlockPayee node vout true).1 = vout ++ [payment] →
      (budget.isTransactionValid node (vout ++ [payment]) (tip.nHeight + 1) { mnodeman }).2 =
        .valid := by
  intro agreement
  have valid := agreement (NodeContext.mainNode 107999) oneVote lastOrdinary stakeOutputs
    ⟨50 * COIN, [0x51], -10⟩ twentyNodes (by decide) (by decide) (by decide)
  exact absurd valid (by decide)

end CBudgetManager

end GiantCore
