import GiantCore.Budget.VoteGossip
import Mathlib.Algebra.BigOperators.Group.List.Basic
import Mathlib.Algebra.Order.BigOperators.Group.List

/-! # The payments of a valid finalized budget

`CFinalizedBudget::IsValid` compares the total of the payments with the limit of a budget cycle.
The total is a sum of signed 64-bit numbers, and no test looks at a single payment.
-/

namespace GiantCore

/-- A finalized budget as it comes from the network. -/
structure FinalizedBudgetBroadcast extends CFinalizedBudget where
  strBudgetName : String
  nFeeTXHash : Uint256
  nTime : Int

/-- What the tests of a finalized budget read. -/
structure FinalizedBudgetEnv where
  node : NodeContext
  mapProposals : Uint256 → Option CBudgetProposal
  /-- `uint256::ToString`. -/
  hashText : Uint256 → String
  /-- `IsBudgetCollateralValid`, with its error. -/
  isBudgetCollateralValid : FinalizedBudgetBroadcast → Except String Unit

namespace FinalizedBudgetBroadcast

variable (env : FinalizedBudgetEnv) (budget : FinalizedBudgetBroadcast)

def getTotalPayout : CAmount :=
  budget.vecBudgetPayments.foldl (fun ret payment => wrapAmount (ret + payment.nAmount)) 0

/-- `CBudgetManager::GetTotalBudget`. -/
def getTotalBudget : CAmount :=
  match env.node.tip with
  | none => 0
  | some _ =>
      let nSubsidy := if env.node.params.networkID = .testnet then 5000 * COIN else 100 * COIN
      wrapAmount (nSubsidy / 100 * 10 * env.node.params.nBudgetCycleBlocks)

def getProposals : String :=
  budget.vecBudgetPayments.foldl (fun ret payment =>
    let token := match env.mapProposals payment.nProposalHash with
      | none => env.hashText payment.nProposalHash
      | some proposal => proposal.strProposalName
    if ret = "" then token else ret ++ ("," ++ token)) ""

/-- The start of an error that names the budget and its proposals. -/
def named : String := "Budget " ++ budget.strBudgetName ++ " (" ++ budget.getProposals env ++ ") "

/-- The last test: the budget is not too old. -/
def notObsolete : Except String Unit :=
  match env.node.tip with
  | none => .ok ()
  | some tip =>
      let cycle := env.node.params.nBudgetCycleBlocks
      let nBlockStart := tip.nHeight - tip.nHeight.tmod cycle + cycle
      let nMaxAge := nBlockStart - 2 * cycle
      if budget.getBlockEnd < nMaxAge then
        .error (budget.named env ++ "(ends at block " ++ toString budget.getBlockEnd ++
          ") too old and obsolete")
      else .ok ()

def isValid (fCheckCollateral : Bool) : Except String Unit :=
  if budget.nBlockStart.tmod env.node.params.nBudgetCycleBlocks ≠ 0 then .error "Invalid BlockStart"
  else if budget.getBlockEnd - budget.nBlockStart > 100 then .error "Invalid BlockEnd"
  else if budget.vecBudgetPayments.length > 100 then
    .error "Invalid budget payments count (too many)"
  else if budget.strBudgetName = "" then .error "Invalid Budget Name"
  else if budget.nBlockStart = 0 then .error (budget.named env ++ "Invalid BlockStart == 0")
  else if budget.nFeeTXHash = 0 then .error (budget.named env ++ "Invalid FeeTx == 0")
  -- can only pay out 10% of the possible coins
  else if budget.getTotalPayout > getTotalBudget env then
    .error (budget.named env ++ "Invalid Payout (more than max)")
  else
    match if fCheckCollateral then env.isBudgetCollateralValid budget else .ok () with
    | .error strError2 => .error (budget.named env ++ "Invalid Collateral : " ++ strError2)
    | .ok () => budget.notObsolete env

/-! ## The total -/

theorem getTotalPayout_le {fCheckCollateral : Bool}
    (valid : budget.isValid env fCheckCollateral = .ok ()) :
    budget.getTotalPayout ≤ getTotalBudget env := by
  unfold isValid at valid
  split at valid
  · cases valid
  split at valid
  · cases valid
  split at valid
  · cases valid
  split at valid
  · cases valid
  split at valid
  · cases valid
  split at valid
  · cases valid
  split at valid
  · cases valid
  · rename_i fits
    exact not_lt.mp fits

/-- The amounts that a budget pays, in order. -/
def amounts : List CAmount := budget.vecBudgetPayments.map CTxBudgetPayment.nAmount

theorem foldl_wrapAmount (amounts : List CAmount) (start : CAmount) :
    amounts.foldl (fun ret nAmount => wrapAmount (ret + nAmount)) (wrapAmount start) =
      wrapAmount (start + amounts.sum) := by
  induction amounts generalizing start with
  | nil => rw [List.foldl_nil, List.sum_nil, add_zero]
  | cons nAmount rest ih =>
      have first : wrapAmount (wrapAmount start + nAmount) = wrapAmount (start + nAmount) :=
        (Int.bmod_add_cancel_right nAmount).mpr Int.bmod_bmod
      rw [List.foldl_cons, first, ih, List.sum_cons, add_assoc]

theorem getTotalPayout_eq : budget.getTotalPayout = wrapAmount budget.amounts.sum := by
  have total := foldl_wrapAmount budget.amounts 0
  rw [zero_add] at total
  rw [← total, amounts, List.foldl_map]
  rfl

theorem getTotalBudget_lt : getTotalBudget env < 2 ^ 63 := by
  unfold getTotalBudget
  split
  · decide
  · exact Int.bmod_lt (by decide)

/-- **The bounds that a limit sets**: each payment and the sum of any payments lie between zero and
the limit, and the running sum never leaves the range of a 64-bit number. -/
structure Bounded (amounts : List CAmount) (limit : CAmount) : Prop where
  each : ∀ nAmount ∈ amounts, 0 ≤ nAmount ∧ nAmount ≤ limit
  some_ : ∀ subset : List CAmount, subset.Sublist amounts → 0 ≤ subset.sum ∧ subset.sum ≤ limit
  running : ∀ done : List CAmount, done <+: amounts →
    -2 ^ 63 ≤ done.sum ∧ done.sum < 2 ^ 63

theorem bounded_of_sum_le {amounts : List CAmount} {limit : CAmount}
    (nonneg : ∀ nAmount ∈ amounts, 0 ≤ nAmount) (total : amounts.sum ≤ limit)
    (small : limit < 2 ^ 63) : Bounded amounts limit := by
  have some_ : ∀ subset : List CAmount, subset.Sublist amounts →
      0 ≤ subset.sum ∧ subset.sum ≤ limit := by
    intro subset inside
    constructor
    · exact List.sum_nonneg fun nAmount member => nonneg nAmount (inside.subset member)
    · exact (inside.sum_le_sum nonneg).trans total
  refine ⟨fun nAmount member => ?_, some_, fun done first => ?_⟩
  · have alone := some_ [nAmount] (List.singleton_sublist.mpr member)
    rwa [List.sum_singleton] at alone
  · obtain ⟨low, high⟩ := some_ done first.sublist
    exact ⟨le_trans (by decide) low, lt_of_le_of_lt high small⟩

/-- **A valid finalized budget keeps its payments within the limit** if and only if no amount is
negative and their sum fits a 64-bit number. -/
theorem bounded_iff_of_isValid {fCheckCollateral : Bool}
    (valid : budget.isValid env fCheckCollateral = .ok ()) :
    Bounded budget.amounts (getTotalBudget env) ↔
      (∀ nAmount ∈ budget.amounts, 0 ≤ nAmount) ∧ budget.amounts.sum < 2 ^ 63 := by
  constructor
  · intro bounded
    refine ⟨fun nAmount member => (bounded.each nAmount member).1, ?_⟩
    have whole := (bounded.some_ budget.amounts (List.Sublist.refl _)).2
    exact lt_of_le_of_lt whole (getTotalBudget_lt env)
  · intro ⟨nonneg, small⟩
    have payout := budget.getTotalPayout_le env valid
    have low : -2 ^ 63 ≤ budget.amounts.sum :=
      (by decide : (-2 ^ 63 : Int) ≤ 0).trans (List.sum_nonneg nonneg)
    rw [getTotalPayout_eq, wrapAmount_of_bounds low small] at payout
    exact bounded_of_sum_le nonneg payout (getTotalBudget_lt env)

/-- A node of the main network that finds every collateral. -/
def mainEnv : FinalizedBudgetEnv where
  node := NodeContext.mainNode 500
  mapProposals _ := none
  hashText hash := toString hash.toNat
  isBudgetCollateralValid _ := .ok ()

/-- A budget that pays these amounts. -/
def paying (amounts : List CAmount) : FinalizedBudgetBroadcast where
  nBlockStart := 21600
  vecBudgetPayments := amounts.map fun nAmount => ⟨9, [0x51], nAmount⟩
  strBudgetName := "main"
  nFeeTXHash := 3
  nTime := 1599990000

theorem bounded_iff_of_isValid_paying :
    Bounded (paying [50 * COIN, 20 * COIN]).amounts (getTotalBudget mainEnv) :=
  ((paying [50 * COIN, 20 * COIN]).bounded_iff_of_isValid mainEnv
    (by decide : (paying [50 * COIN, 20 * COIN]).isValid mainEnv true = .ok ())).mpr
      ⟨by decide, by decide⟩

/-- A negative amount makes room for one above the limit. -/
theorem not_bounded_negative :
    ¬ ∀ (env : FinalizedBudgetEnv) (budget : FinalizedBudgetBroadcast) (fCheckCollateral : Bool),
      budget.isValid env fCheckCollateral = .ok () →
        Bounded budget.amounts (getTotalBudget env) := by
  intro all
  have bounded := all mainEnv (paying [1000000 * COIN, -1000000 * COIN]) true (by decide)
  exact absurd (bounded.each (1000000 * COIN) (by decide)).2 (by decide)

end FinalizedBudgetBroadcast

end GiantCore
