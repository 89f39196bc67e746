import GiantCore.Budget.VoteGossip
import Mathlib.Tactic.Ring

/-! # The cycles of a proposal

A proposal is paid once in every budget cycle that lies in its range of blocks. The constructor
ends the range one block behind a cycle for each payment, and the count of payments divides the
range by the length of a cycle. The two agree as long as there are fewer payments than blocks in a
cycle and the end of the range fits into an `int` (`paidExactly_broadcast`).
-/

namespace GiantCore

namespace CBudgetProposal

variable (params : CChainParams)

/-- The range of a proposal that `CBudgetProposalBroadcast` makes, in `int`s. -/
def broadcast (strProposalName strURL : String) (nPaymentCount : Int) (address : CScript)
    (nAmount : CAmount) (nBlockStart : Int) (nFeeTXHash : Uint256) : CBudgetProposal :=
  let nCycleStart := storeInt (nBlockStart - nBlockStart.tmod params.nBudgetCycleBlocks)
  { strProposalName, strURL, nBlockStart,
    nBlockEnd := storeInt (nCycleStart +
      storeInt (storeInt (params.nBudgetCycleBlocks + 1) * nPaymentCount)),
    nAmount, address, nFeeTXHash }

variable (proposal : CBudgetProposal)

/-- The tests of `IsPassing` on the blocks of a cycle. -/
def covers (nBlockStartBudget nBlockEndBudget : Int) : Bool :=
  if proposal.nBlockStart > nBlockStartBudget then false
  else if proposal.nBlockEnd < nBlockEndBudget then false
  else true

def getBlockStartCycle : Int :=
  storeInt (proposal.nBlockStart - proposal.nBlockStart.tmod params.nBudgetCycleBlocks)

def getBlockEndCycle : Int := proposal.nBlockEnd

/-- `GetBlockCurrentCycle`, at the tip. -/
def getBlockCurrentCycle (tip : Option CBlockIndex) : Int :=
  match tip with
  | none => -1
  | some pindexPrev =>
      if pindexPrev.nHeight ≥ proposal.getBlockEndCycle then -1
      else storeInt (pindexPrev.nHeight - pindexPrev.nHeight.tmod params.nBudgetCycleBlocks)

def getTotalPaymentCount : Int :=
  (storeInt (proposal.getBlockEndCycle - proposal.getBlockStartCycle params)).tdiv
    params.nBudgetCycleBlocks

/-- `GetRemainingPaymentCount`, at the tip. -/
def getRemainingPaymentCount (tip : Option CBlockIndex) : Int :=
  let nPayments := (storeInt (proposal.getBlockEndCycle -
    proposal.getBlockCurrentCycle params tip)).tdiv params.nBudgetCycleBlocks - 1
  min nPayments (proposal.getTotalPaymentCount params)

variable {params}

/-- The range begins at the start of a cycle, and ends before the `int`s do. -/
theorem broadcast_nBlockEnd {strProposalName strURL : String} {nPaymentCount : Int}
    {address : CScript} {nAmount : CAmount} {nFeeTXHash : Uint256} {cycle : Int}
    (start : 0 ≤ cycle * params.nBudgetCycleBlocks) (length : 0 ≤ params.nBudgetCycleBlocks)
    (pays : 1 ≤ nPaymentCount)
    (fits : cycle * params.nBudgetCycleBlocks +
      (params.nBudgetCycleBlocks + 1) * nPaymentCount < 2 ^ 31) :
    (broadcast params strProposalName strURL nPaymentCount address nAmount
      (cycle * params.nBudgetCycleBlocks) nFeeTXHash).nBlockEnd =
        cycle * params.nBudgetCycleBlocks + (params.nBudgetCycleBlocks + 1) * nPaymentCount := by
  have once : params.nBudgetCycleBlocks + 1 ≤ (params.nBudgetCycleBlocks + 1) * nPaymentCount :=
    le_mul_of_one_le_right (by omega) pays
  have first : storeInt (cycle * params.nBudgetCycleBlocks -
      (cycle * params.nBudgetCycleBlocks).tmod params.nBudgetCycleBlocks) =
        cycle * params.nBudgetCycleBlocks := by
    rw [Int.mul_tmod_left, sub_zero]
    exact storeInt_of_bounds (by omega) (by omega)
  show storeInt (storeInt _ + storeInt (storeInt _ * nPaymentCount)) = _
  rw [first, @storeInt_of_bounds (params.nBudgetCycleBlocks + 1) (by omega) (by omega),
    @storeInt_of_bounds ((params.nBudgetCycleBlocks + 1) * nPaymentCount) (by omega) (by omega)]
  exact storeInt_of_bounds (by omega) (by omega)

/-- A rest below the length of a cycle does not count. -/
theorem tdiv_cycles {length count rest : Int} (nonneg : 0 ≤ count) (low : 0 ≤ rest)
    (high : rest < length) : (count * length + rest).tdiv length = count := by
  have positive : 0 < length := lt_of_le_of_lt low high
  have whole : 0 ≤ count * length + rest :=
    add_nonneg (mul_nonneg nonneg positive.le) low
  rw [Int.tdiv_eq_ediv_of_nonneg whole, add_comm, Int.add_mul_ediv_right _ _ positive.ne',
    Int.ediv_eq_zero_of_lt low high, zero_add]

/-- The first block of the cycle of a height. -/
theorem sub_tmod_cycle {length cycle height : Int} (nonneg : 0 ≤ cycle)
    (low : cycle * length ≤ height) (high : height < (cycle + 1) * length) :
    height - height.tmod length = cycle * length := by
  have positive : 0 < length := by
    have gap : (cycle + 1) * length = cycle * length + length := by ring
    omega
  have split : height = cycle * length + (height - cycle * length) := by ring
  have below : height - cycle * length < length := by
    have gap : (cycle + 1) * length = cycle * length + length := by ring
    omega
  have base : 0 ≤ cycle * length := mul_nonneg nonneg positive.le
  rw [Int.tmod_eq_emod_of_nonneg (base.trans low)]
  have rest : height % length = height - cycle * length := by
    conv_lhs => rw [split, add_comm, Int.add_mul_emod_self_right]
    exact Int.emod_eq_of_lt (by omega) below
  rw [rest]
  ring

/-- **A proposal is paid a number of times**, from its own cycle on: it covers that many cycles, it
counts that many payments, and in the `j`-th of these cycles `j` of them no longer remain. -/
structure PaidExactly (params : CChainParams) (proposal : CBudgetProposal) (first n : Int) :
    Prop where
  covers_iff : ∀ cycle, proposal.covers (cycle * params.nBudgetCycleBlocks)
    (cycle * params.nBudgetCycleBlocks + params.nBudgetCycleBlocks - 1) = true ↔
      first ≤ cycle ∧ cycle < first + n
  total : proposal.getTotalPaymentCount params = n
  remaining : ∀ j, 1 ≤ j → j ≤ n → ∀ tip : CBlockIndex,
    (first + j - 1) * params.nBudgetCycleBlocks ≤ tip.nHeight →
    tip.nHeight < (first + j) * params.nBudgetCycleBlocks →
      proposal.getRemainingPaymentCount params (some tip) = n - j

/-- The range of a proposal for `n` payments from the cycle `first` on: it ends `n` blocks into the
cycle behind the last one, and fits into an `int`. -/
structure HasRange (params : CChainParams) (proposal : CBudgetProposal) (first n : Int) :
    Prop where
  nonneg : 0 ≤ first
  pays : 1 ≤ n
  few : n < params.nBudgetCycleBlocks - 1
  starts : proposal.nBlockStart = first * params.nBudgetCycleBlocks
  ends : proposal.nBlockEnd = (first + n) * params.nBudgetCycleBlocks + n
  small : proposal.nBlockEnd < 2 ^ 31

namespace HasRange

variable {params : CChainParams} {proposal : CBudgetProposal} {first n : Int}
  (range : HasRange params proposal first n)

include range

theorem positive : 0 < params.nBudgetCycleBlocks := by
  have pays := range.pays
  have few := range.few
  omega

/-- Cycles from one number on are not before its first block. -/
theorem mul_le {cycle other : Int} (le : cycle ≤ other) :
    cycle * params.nBudgetCycleBlocks ≤ other * params.nBudgetCycleBlocks :=
  mul_le_mul_of_nonneg_right le range.positive.le

/-- The proposal covers its own cycle and the `n - 1` behind it. -/
theorem covers_iff (cycle : Int) :
    proposal.covers (cycle * params.nBudgetCycleBlocks)
        (cycle * params.nBudgetCycleBlocks + params.nBudgetCycleBlocks - 1) = true ↔
      first ≤ cycle ∧ cycle < first + n := by
  obtain ⟨-, pays, few, starts, ends, -⟩ := id range
  have last : (cycle + 1) * params.nBudgetCycleBlocks ≤
      (first + n) * params.nBudgetCycleBlocks + n + 1 ↔ cycle < first + n := by
    constructor
    · intro fits
      by_contra late
      have more : (first + n + 1) * params.nBudgetCycleBlocks ≤
          (cycle + 1) * params.nBudgetCycleBlocks := range.mul_le (by omega)
      rw [add_mul, one_mul] at more
      omega
    · intro early
      have less : (cycle + 1) * params.nBudgetCycleBlocks ≤
          (first + n) * params.nBudgetCycleBlocks := range.mul_le (by omega)
      omega
  rw [← last, ← mul_le_mul_iff_left₀ range.positive, add_mul, one_mul, covers, starts, ends]
  split
  · simp
    omega
  · split
    · simp
      omega
    · simp
      omega

/-- The first cycle starts where the proposal does. -/
theorem getBlockStartCycle_eq :
    proposal.getBlockStartCycle params = first * params.nBudgetCycleBlocks := by
  obtain ⟨nonneg, pays, -, starts, ends, small⟩ := id range
  have start : 0 ≤ first * params.nBudgetCycleBlocks := mul_nonneg nonneg range.positive.le
  have before : first * params.nBudgetCycleBlocks ≤ (first + n) * params.nBudgetCycleBlocks :=
    range.mul_le (by omega)
  rw [getBlockStartCycle, starts, Int.mul_tmod_left, sub_zero]
  exact storeInt_of_bounds (by omega) (by omega)

/-- All payments are counted. -/
theorem getTotalPaymentCount_eq : proposal.getTotalPaymentCount params = n := by
  obtain ⟨nonneg, pays, few, -, ends, small⟩ := id range
  have blocks : (first + n) * params.nBudgetCycleBlocks + n =
      first * params.nBudgetCycleBlocks + (n * params.nBudgetCycleBlocks + n) := by ring
  have start : 0 ≤ first * params.nBudgetCycleBlocks := mul_nonneg nonneg range.positive.le
  have paid : 0 ≤ n * params.nBudgetCycleBlocks := mul_nonneg (by omega) range.positive.le
  rw [getTotalPaymentCount, getBlockEndCycle, range.getBlockStartCycle_eq, ends, blocks,
    add_sub_cancel_left, storeInt_of_bounds (by omega) (by omega)]
  exact tdiv_cycles (by omega) (by omega) (by omega)

/-- In the `j`-th cycle the current one is that cycle. -/
theorem getBlockCurrentCycle_eq {j : Int} (low : 1 ≤ j) (high : j ≤ n) {tip : CBlockIndex}
    (above : (first + j - 1) * params.nBudgetCycleBlocks ≤ tip.nHeight)
    (below : tip.nHeight < (first + j) * params.nBudgetCycleBlocks) :
    proposal.getBlockCurrentCycle params (some tip) =
      (first + j - 1) * params.nBudgetCycleBlocks := by
  obtain ⟨nonneg, pays, -, -, ends, small⟩ := id range
  have positive := range.positive
  have before : tip.nHeight < proposal.getBlockEndCycle := by
    have less : (first + j) * params.nBudgetCycleBlocks ≤
        (first + n) * params.nBudgetCycleBlocks := range.mul_le (by omega)
    rw [getBlockEndCycle, ends]
    omega
  have current := sub_tmod_cycle (by omega) above (by rwa [sub_add_cancel])
  have start : 0 ≤ (first + j - 1) * params.nBudgetCycleBlocks :=
    mul_nonneg (by omega) positive.le
  show (if tip.nHeight ≥ proposal.getBlockEndCycle then -1 else storeInt _) = _
  rw [if_neg (not_le.mpr before), current]
  rw [getBlockEndCycle] at before
  exact storeInt_of_bounds (by omega) (by omega)

/-- In the `j`-th cycle `j` payments no longer remain. -/
theorem getRemainingPaymentCount_eq {j : Int} (low : 1 ≤ j) (high : j ≤ n) {tip : CBlockIndex}
    (above : (first + j - 1) * params.nBudgetCycleBlocks ≤ tip.nHeight)
    (below : tip.nHeight < (first + j) * params.nBudgetCycleBlocks) :
    proposal.getRemainingPaymentCount params (some tip) = n - j := by
  obtain ⟨nonneg, pays, few, -, ends, small⟩ := id range
  have left : (first + n) * params.nBudgetCycleBlocks + n -
      (first + j - 1) * params.nBudgetCycleBlocks =
        (n - j + 1) * params.nBudgetCycleBlocks + n := by ring
  have count : (storeInt (proposal.getBlockEndCycle -
      proposal.getBlockCurrentCycle params (some tip))).tdiv params.nBudgetCycleBlocks =
        n - j + 1 := by
    have rest : 0 ≤ (n - j + 1) * params.nBudgetCycleBlocks :=
      mul_nonneg (by omega) range.positive.le
    have behind : 0 ≤ (first + j - 1) * params.nBudgetCycleBlocks :=
      mul_nonneg (by omega) range.positive.le
    rw [getBlockEndCycle, range.getBlockCurrentCycle_eq low high above below, ends, left,
      storeInt_of_bounds (by omega) (by omega)]
    exact tdiv_cycles (by omega) (by omega) (by omega)
  rw [getRemainingPaymentCount, count, range.getTotalPaymentCount_eq]
  omega

end HasRange

end CBudgetProposal

open CBudgetProposal in
/-- **Every proposal is paid as often as it asks**, if it asks for fewer payments than a cycle has
blocks and its range ends before `2 ^ 31`. -/
theorem paidExactly_broadcast (params : CChainParams) (strProposalName strURL : String)
    (address : CScript) (nAmount : CAmount) (nFeeTXHash : Uint256) (first n : Int)
    (nonneg : 0 ≤ first) (pays : 1 ≤ n) (few : n < params.nBudgetCycleBlocks - 1)
    (fits : first * params.nBudgetCycleBlocks + (params.nBudgetCycleBlocks + 1) * n < 2 ^ 31) :
    PaidExactly params (broadcast params strProposalName strURL n address nAmount
      (first * params.nBudgetCycleBlocks) nFeeTXHash) first n := by
  have positive : 0 < params.nBudgetCycleBlocks := by omega
  have ends := @broadcast_nBlockEnd params strProposalName strURL n address nAmount nFeeTXHash first
    (mul_nonneg nonneg positive.le) positive.le pays fits
  have range : HasRange params (broadcast params strProposalName strURL n address nAmount
      (first * params.nBudgetCycleBlocks) nFeeTXHash) first n :=
    ⟨nonneg, pays, few, rfl, ends.trans (by ring), ends ▸ fits⟩
  exact ⟨range.covers_iff, range.getTotalPaymentCount_eq, fun _ low high _ above below =>
    range.getRemainingPaymentCount_eq low high above below⟩

/-- Three payments on the main network. -/
theorem paidExactly_threePayments :
    CBudgetProposal.PaidExactly CChainParams.main
      (.broadcast CChainParams.main "p" "" 3 [0x51] COIN (20 * 21600) 1) 20 3 :=
  paidExactly_broadcast CChainParams.main "p" "" [0x51] COIN 1 20 3 (by decide) (by decide)
    (by decide) (by decide)

/-- The range of two payments from the block 2147450400 on does not end before `2 ^ 31`: the end
wraps around, and the proposal is never paid. -/
theorem not_paidExactly_lateStart :
    ¬ ∀ (params : CChainParams) (strProposalName strURL : String) (address : CScript)
      (nAmount : CAmount) (nFeeTXHash : Uint256) (first n : Int), 0 ≤ first → 1 ≤ n →
      n < params.nBudgetCycleBlocks - 1 →
      CBudgetProposal.PaidExactly params (.broadcast params strProposalName strURL n address nAmount
        (first * params.nBudgetCycleBlocks) nFeeTXHash) first n := by
  intro all
  have paid := all CChainParams.main "p" "" [0x51] COIN 1 99419 2 (by decide) (by decide)
    (by decide)
  exact absurd ((paid.covers_iff 99419).mpr (by decide)) (by decide)

end GiantCore
