import GiantCore.Chain.Params
import GiantCore.Chain.Work
import Mathlib.Algebra.Order.Ring.Nat
import Mathlib.Tactic.IntervalCases
import Mathlib.Tactic.Ring

/-! # The next target

`GetNextWorkRequired`: the DarkGravity average of 24 blocks while blocks are mined, and a step
towards the target spacing after each staked block. The computation is over 256-bit words, and a
multiplication with an `int64_t` goes through `operator*=(uint32_t)`, which keeps 32 bits of it.

`requiredTarget` is the same computation over unbounded numbers. `getNextWorkRequired_eq_iff` says
for which chains the two agree.
-/

namespace GiantCore

namespace CChainParams

variable (params : CChainParams)

/-- `TargetSpacing`. -/
def targetSpacing : Int :=
  match params.networkID with
  | .regtest => 1 * 60
  | _ => 2 * 60

/-- `TargetTimespan`. -/
def targetTimespan : Int :=
  match params.networkID with
  | .regtest => 24 * 60 * 60
  | _ => 1 * 60

end CChainParams

namespace Uint256

/-- Multiplication with an `int64_t`, which becomes an `uint32_t`. -/
def mulWord (word : Uint256) (factor : Int) : Uint256 :=
  word * (BitVec.ofInt 32 factor).setWidth 256

/-- Division by an `int64_t`, which becomes a word. -/
def divWord (word : Uint256) (divisor : Int) : Uint256 :=
  word / (BitVec.ofInt 64 divisor).setWidth 256

/-- `~uint256(0) >> 20`. -/
def targetLimit : Uint256 := ~~~(0 : Uint256) >>> 20

end Uint256

open Uint256

/-! ## The retarget of staked blocks -/

/-- The spacing of the last two blocks, one second if it is negative. -/
def actualSpacing (last : WorkIndex) (rest : List WorkIndex) : Int :=
  let nActualSpacing :=
    if last.nHeight ≠ 0 then
      match rest with
      | [] => 0
      | pprev :: _ => (last.nTime.toNat : Int) - pprev.nTime.toNat
    else 0
  if nActualSpacing < 0 then 1 else nActualSpacing

/-- The number of spacings in the averaging interval. -/
def CChainParams.retargetInterval (params : CChainParams) : Int :=
  params.targetTimespan * 40 / params.targetSpacing

/-- The factor of the retarget. -/
def retargetFactor (params : CChainParams) (last : WorkIndex) (rest : List WorkIndex) : Int :=
  (params.retargetInterval - 1) * params.targetSpacing + actualSpacing last rest +
    actualSpacing last rest

/-- The divisor of the retarget. -/
def retargetDivisor (params : CChainParams) : Int :=
  (params.retargetInterval + 1) * params.targetSpacing

/-- The exponential step towards the target spacing. -/
def stakeTarget (params : CChainParams) (last : WorkIndex) (rest : List WorkIndex) : Uint256 :=
  let bnNew := divWord (mulWord last.bnTarget (retargetFactor params last rest))
    (retargetDivisor params)
  let bnNew := if last.nHeight ≤ params.nLastPOWBlock + 2 then targetLimit else bnNew
  if bnNew ≤ 0 ∨ bnNew > targetLimit then targetLimit else bnNew

/-! ## DarkGravity -/

/-- What the loop over the last blocks carries. -/
structure Gravity where
  nActualTimespan : Int := 0
  lastBlockTime : Int := 0
  countBlocks : Nat := 0
  pastDifficultyAverage : Uint256 := 0
  pastDifficultyAveragePrev : Uint256 := 0

/-- `PastBlocksMin` and `PastBlocksMax`. -/
def pastBlocks : Nat := 24

/-- One round of the loop. -/
def Gravity.read (gravity : Gravity) (block : WorkIndex) : Gravity :=
  let countBlocks := gravity.countBlocks + 1
  let average :=
    if countBlocks ≤ pastBlocks then
      if countBlocks = 1 then block.bnTarget
      else divWord (mulWord gravity.pastDifficultyAveragePrev countBlocks + block.bnTarget)
        (countBlocks + 1)
    else gravity.pastDifficultyAverage
  { nActualTimespan :=
      if gravity.lastBlockTime > 0 then
        gravity.nActualTimespan + (gravity.lastBlockTime - block.nTime.toNat)
      else gravity.nActualTimespan
    lastBlockTime := block.nTime.toNat
    countBlocks
    pastDifficultyAverage := average
    pastDifficultyAveragePrev :=
      if countBlocks ≤ pastBlocks then average else gravity.pastDifficultyAveragePrev }

/-- The loop, for at most so many more blocks. -/
def readGravity : Nat → List WorkIndex → Gravity → Gravity
  | 0, _, gravity => gravity
  | _ + 1, [], gravity => gravity
  | rounds + 1, block :: rest, gravity =>
      if block.nHeight > 0 then readGravity rounds rest (gravity.read block) else gravity

/-- The timespan of the blocks, not below a third and not above three times the ideal one. -/
def clampTimespan (nActualTimespan nTargetTimespan : Int) : Int :=
  let nActualTimespan :=
    if nActualTimespan < nTargetTimespan / 3 then nTargetTimespan / 3 else nActualTimespan
  if nActualTimespan > nTargetTimespan * 3 then nTargetTimespan * 3 else nActualTimespan

/-- The target of the block after a mined one. -/
def gravityTarget (params : CChainParams) (chain : List WorkIndex) : Uint256 :=
  let gravity := readGravity pastBlocks chain {}
  let nTargetTimespan := gravity.countBlocks * params.targetSpacing
  let bnNew := divWord (mulWord gravity.pastDifficultyAverage
    (clampTimespan gravity.nActualTimespan nTargetTimespan)) nTargetTimespan
  if bnNew > params.bnProofOfWorkLimit then params.bnProofOfWorkLimit else bnNew

/-- `GetNextWorkRequired`: the compact target of the block after a chain, which starts at the last
block. -/
def getNextWorkRequired (params : CChainParams) (chain : List WorkIndex) : Nat :=
  match chain with
  | [] => getCompact params.bnProofOfWorkLimit
  | last :: rest =>
      if params.networkID = .regtest then last.nBits.toNat
      else if last.nHeight = 0 ∨ last.nHeight < pastBlocks then
        getCompact params.bnProofOfWorkLimit
      else if last.nHeight ≥ params.nLastPOWBlock then getCompact (stakeTarget params last rest)
      else getCompact (gravityTarget params chain)

/-! ## The same over unbounded numbers -/

/-- 2²³⁶ - 1. -/
def easiestTarget : Nat := 2 ^ 236 - 1

/-- The exponential step over unbounded numbers. -/
def requiredStakeTarget (params : CChainParams) (last : WorkIndex) (rest : List WorkIndex) : Nat :=
  if last.nHeight ≤ params.nLastPOWBlock + 2 then easiestTarget
  else
    let target := last.bnTarget.toNat * (retargetFactor params last rest).toNat /
      (retargetDivisor params).toNat
    if target = 0 then easiestTarget else min easiestTarget target

/-- The average of the first targets of a chain, weighted as by DarkGravity, after `count` blocks
with an average. -/
def averageTarget : Nat → List WorkIndex → Nat → Nat → Nat
  | 0, _, _, average => average
  | _ + 1, [], _, average => average
  | rounds + 1, block :: rest, count, average =>
      if block.nHeight > 0 then
        averageTarget rounds rest (count + 1)
          (if count = 0 then block.bnTarget.toNat
          else (average * (count + 1) + block.bnTarget.toNat) / (count + 2))
      else average

/-- The DarkGravity target over unbounded numbers. -/
def requiredGravityTarget (params : CChainParams) (chain : List WorkIndex) : Nat :=
  let gravity := readGravity pastBlocks chain {}
  let nTargetTimespan := gravity.countBlocks * params.targetSpacing
  min easiestTarget (averageTarget pastBlocks chain 0 0 *
    (clampTimespan gravity.nActualTimespan nTargetTimespan).toNat / nTargetTimespan.toNat)

/-- The target of the block after a chain, over unbounded numbers. -/
def requiredTarget (params : CChainParams) (chain : List WorkIndex) : Nat :=
  match chain with
  | [] => easiestTarget
  | last :: rest =>
      if last.nHeight = 0 ∨ last.nHeight < pastBlocks then easiestTarget
      else if last.nHeight ≥ params.nLastPOWBlock then requiredStakeTarget params last rest
      else requiredGravityTarget params chain

/-! ## Words as numbers -/

namespace Uint256

/-- The limit is the easiest target. -/
theorem toNat_targetLimit : targetLimit.toNat = easiestTarget := by decide

/-- A product of a word and a number wraps around. -/
theorem toNat_mulWord (word : Uint256) {factor : Int} (nonneg : 0 ≤ factor) :
    (mulWord word factor).toNat = word.toNat * (factor.toNat % 2 ^ 32) % 2 ^ 256 := by
  obtain ⟨factor, rfl⟩ := Int.eq_ofNat_of_zero_le nonneg
  have kept : ((BitVec.ofInt 32 (factor : Int)).setWidth 256).toNat = factor % 2 ^ 32 := by
    rw [BitVec.ofInt_natCast, BitVec.toNat_setWidth, BitVec.toNat_ofNat]
    exact Nat.mod_eq_of_lt (Nat.lt_of_lt_of_le (Nat.mod_lt _ (by decide)) (by decide))
  unfold mulWord
  rw [BitVec.toNat_mul, kept, Int.toNat_natCast]

/-- A product that fits is exact. -/
theorem toNat_mulWord_of_lt {word : Uint256} {factor : Int} (nonneg : 0 ≤ factor)
    (short : factor < 2 ^ 32) (fits : word.toNat * factor.toNat < 2 ^ 256) :
    (mulWord word factor).toNat = word.toNat * factor.toNat := by
  rw [toNat_mulWord word nonneg, Nat.mod_eq_of_lt (by omega : factor.toNat < 2 ^ 32),
    Nat.mod_eq_of_lt fits]

/-- A quotient of a word and a number. -/
theorem toNat_divWord (word : Uint256) {divisor : Int} (nonneg : 0 ≤ divisor)
    (short : divisor < 2 ^ 64) : (divWord word divisor).toNat = word.toNat / divisor.toNat := by
  obtain ⟨divisor, rfl⟩ := Int.eq_ofNat_of_zero_le nonneg
  have kept : ((BitVec.ofInt 64 (divisor : Int)).setWidth 256).toNat = divisor := by
    rw [BitVec.ofInt_natCast, BitVec.toNat_setWidth, BitVec.toNat_ofNat,
      Nat.mod_eq_of_lt (by omega : divisor < 2 ^ 64)]
    exact Nat.mod_eq_of_lt (by omega)
  unfold divWord
  rw [BitVec.toNat_udiv, kept, Int.toNat_natCast]

/-- The first three bytes of a positive number, and how many bytes it has. -/
theorem exists_firstBytes {word : Uint256} (positive : 0 < word.toNat) :
    ∃ nCompact,
      (if (word.bits + 7) / 8 ≤ 3 then word.toNat <<< (8 * (3 - (word.bits + 7) / 8))
        else word.toNat >>> (8 * ((word.bits + 7) / 8 - 3))) = nCompact ∧
      2 ^ 16 ≤ nCompact ∧ nCompact < 2 ^ 24 ∧
      nCompact * 256 ^ ((word.bits + 7) / 8) ≤ word.toNat * 256 ^ 3 ∧
      word.toNat * 256 ^ 3 < (nCompact + 1) * 256 ^ ((word.bits + 7) / 8) := by
  have nonzero : word ≠ 0 := by
    rintro rfl
    exact absurd positive (by decide)
  have low := Nat.log2_self_le (Nat.pos_iff_ne_zero.mp positive)
  have high := Nat.lt_log2_self (n := word.toNat)
  have size : word.bits = word.toNat.log2 + 1 := if_neg nonzero
  obtain ⟨nSize, same⟩ : ∃ nSize, (word.bits + 7) / 8 = nSize + 1 :=
    ⟨(word.bits + 7) / 8 - 1, by omega⟩
  have bytes : ∀ count : Nat, (2 : Nat) ^ (8 * count) = 256 ^ count := fun count => by
    rw [Nat.pow_mul]
  have least : 256 ^ nSize ≤ word.toNat := by
    rw [← bytes]
    exact le_trans (Nat.pow_le_pow_right (by decide) (by omega)) low
  have most : word.toNat < 256 ^ (nSize + 1) := by
    rw [← bytes]
    exact lt_of_lt_of_le high (Nat.pow_le_pow_right (by decide) (by omega))
  rw [same]
  by_cases short : nSize + 1 ≤ 3
  · rw [if_pos short, Nat.shiftLeft_eq, bytes]
    refine ⟨_, rfl, ?_⟩
    obtain rfl | rfl | rfl : nSize = 0 ∨ nSize = 1 ∨ nSize = 2 := by omega
    · norm_num at least most ⊢
      omega
    · norm_num at least most ⊢
      omega
    · norm_num at least most ⊢
      omega
  · obtain ⟨more, rfl⟩ : ∃ more, nSize = more + 3 := ⟨nSize - 3, by omega⟩
    rw [if_neg short, Nat.shiftRight_eq_div_pow, bytes,
      show more + 3 + 1 - 3 = more + 1 by omega]
    have unit : 0 < 256 ^ (more + 1) := Nat.pow_pos (by decide)
    have split : (256 : Nat) ^ (more + 3 + 1) = 256 ^ (more + 1) * 256 ^ 3 := by ring
    have below := Nat.div_mul_le_self word.toNat (256 ^ (more + 1))
    have above := Nat.lt_div_mul_add unit (a := word.toNat)
    refine ⟨_, rfl, ?_, ?_, ?_, ?_⟩
    · rw [Nat.le_div_iff_mul_le unit]
      refine le_trans (le_of_eq ?_) least
      ring
    · rw [Nat.div_lt_iff_lt_mul unit]
      refine lt_of_lt_of_eq most ?_
      ring
    · rw [split, ← Nat.mul_assoc]
      exact Nat.mul_le_mul_right _ below
    · rw [split, ← Nat.mul_assoc]
      refine Nat.mul_lt_mul_of_pos_right ?_ (by decide)
      rw [Nat.add_mul, Nat.one_mul]
      exact above

/-- The size and the mantissa of a positive number: its compact form puts them together, and keeps
the number up to the last place of the mantissa. -/
theorem getCompact_spec {word : Uint256} (positive : 0 < word.toNat) :
    ∃ mantissa nSize, getCompact word = mantissa + nSize * 2 ^ 24 ∧ 2 ^ 15 ≤ mantissa ∧
      mantissa < 2 ^ 23 ∧ mantissa * 256 ^ nSize ≤ word.toNat * 256 ^ 3 ∧
      word.toNat * 256 ^ 3 < (mantissa + 1) * 256 ^ nSize := by
  obtain ⟨nCompact, same, least, most, below, above⟩ := exists_firstBytes positive
  unfold getCompact
  dsimp only
  rw [same]
  generalize (word.bits + 7) / 8 = nSize at below above
  have sign : nCompact &&& 0x00800000 = (nCompact.testBit 23).toNat * 2 ^ 23 :=
    Nat.and_two_pow nCompact 23
  have put : ∀ mantissa size : Nat, mantissa < 2 ^ 24 →
      mantissa ||| (size <<< 24) = mantissa + size * 2 ^ 24 := by
    intro mantissa size short
    rw [Nat.or_comm, ← Nat.shiftLeft_add_eq_or_of_lt short, Nat.shiftLeft_eq, Nat.add_comm]
  rw [sign, Nat.testBit_eq_decide_div_mod_eq]
  by_cases large : 2 ^ 23 ≤ nCompact
  · -- the mantissa would be read as negative
    have bit : nCompact / 2 ^ 23 % 2 = 1 := by omega
    rw [decide_eq_true bit, if_pos (by decide), Nat.shiftRight_eq_div_pow, put _ _ (by omega)]
    refine ⟨nCompact / 2 ^ 8, nSize + 1, rfl, by omega, by omega, ?_, ?_⟩
    · refine le_trans ?_ below
      rw [Nat.pow_succ 256, ← Nat.mul_assoc, Nat.mul_right_comm]
      exact Nat.mul_le_mul_right _ (Nat.div_mul_le_self _ _)
    · refine lt_of_lt_of_le above ?_
      rw [Nat.pow_succ 256, ← Nat.mul_assoc, Nat.mul_right_comm]
      exact Nat.mul_le_mul_right _ (by omega)
  · have bit : ¬ nCompact / 2 ^ 23 % 2 = 1 := by omega
    rw [decide_eq_false bit, if_neg (by decide), put _ _ most]
    exact ⟨nCompact, nSize, rfl, by omega, by omega, below, above⟩

/-- Of two numbers with one compact form, none is twice the other. -/
theorem lt_two_mul_of_getCompact_eq {first second : Uint256} (positive : 0 < first.toNat)
    (positive' : 0 < second.toNat) (same : getCompact first = getCompact second) :
    second.toNat < 2 * first.toNat := by
  obtain ⟨mantissa, nSize, form, least, most, below, -⟩ := getCompact_spec positive
  obtain ⟨mantissa', nSize', form', least', most', -, above'⟩ := getCompact_spec positive'
  rw [form, form'] at same
  obtain rfl : nSize = nSize' := by omega
  obtain rfl : mantissa = mantissa' := by omega
  have double : (mantissa + 1) * 256 ^ nSize ≤ 2 * mantissa * 256 ^ nSize :=
    Nat.mul_le_mul_right _ (by omega)
  have scaled : second.toNat * 256 ^ 3 < 2 * first.toNat * 256 ^ 3 := by
    calc second.toNat * 256 ^ 3 < 2 * mantissa * 256 ^ nSize := lt_of_lt_of_le above' double
      _ = 2 * (mantissa * 256 ^ nSize) := Nat.mul_assoc _ _ _
      _ ≤ 2 * (first.toNat * 256 ^ 3) := Nat.mul_le_mul_left _ below
      _ = 2 * first.toNat * 256 ^ 3 := (Nat.mul_assoc _ _ _).symm
  exact Nat.lt_of_mul_lt_mul_right scaled

/-- The least number that has the compact form of the limit. -/
def compactLimit : Nat := (2 ^ 20 - 1) * 2 ^ 216

/-- Which targets have the compact form of the limit. -/
theorem getCompact_eq_limit_iff {word : Uint256} (positive : 0 < word.toNat)
    (below : word.toNat ≤ easiestTarget) :
    getCompact word = getCompact targetLimit ↔ compactLimit ≤ word.toNat := by
  have limit : getCompact targetLimit = (2 ^ 20 - 1) + 30 * 2 ^ 24 := by decide
  obtain ⟨mantissa, nSize, form, least, most, low, high⟩ := getCompact_spec positive
  rw [limit, form]
  unfold compactLimit easiestTarget at *
  constructor
  · intro same
    obtain rfl : nSize = 30 := by omega
    obtain rfl : mantissa = 2 ^ 20 - 1 := by omega
    norm_num at low ⊢
    omega
  · intro large
    -- the number has 30 bytes
    have size : nSize = 30 := by
      rcases Nat.lt_trichotomy nSize 30 with less | same | more
      · have pow : 256 ^ nSize ≤ 256 ^ 29 := Nat.pow_le_pow_right (by decide) (by omega)
        have top : (mantissa + 1) * 256 ^ nSize ≤ 2 ^ 23 * 256 ^ 29 :=
          Nat.mul_le_mul (by omega) pow
        norm_num at *
        omega
      · exact same
      · have pow : 256 ^ 31 ≤ 256 ^ nSize := Nat.pow_le_pow_right (by decide) (by omega)
        have top : 2 ^ 15 * 256 ^ 31 ≤ mantissa * 256 ^ nSize := Nat.mul_le_mul least pow
        norm_num at *
        omega
    subst size
    norm_num at *
    omega

end Uint256

/-! ## DarkGravity is exact -/

section

variable {params : CChainParams} {chain : List WorkIndex}

/-- The targets of the last 24 blocks are positive and not above the limit. -/
def TargetsInRange (chain : List WorkIndex) : Prop :=
  ∀ block ∈ chain.take pastBlocks, 0 < block.bnTarget.toNat ∧ block.bnTarget.toNat ≤ easiestTarget

/-- What the loop has computed, as a number. -/
structure Gravity.Averages (gravity : Gravity) (average : Nat) : Prop where
  current : gravity.pastDifficultyAverage.toNat = average
  previous : gravity.countBlocks ≠ 0 → gravity.pastDifficultyAveragePrev.toNat = average
  bounded : average ≤ easiestTarget

/-- Each block is counted. -/
theorem Gravity.countBlocks_read (gravity : Gravity) (block : WorkIndex) :
    (gravity.read block).countBlocks = gravity.countBlocks + 1 := rfl

/-- The average after one of the first rounds. -/
theorem Gravity.average_read {gravity : Gravity} (more : gravity.countBlocks < pastBlocks)
    (block : WorkIndex) :
    (gravity.read block).pastDifficultyAverage =
      (if gravity.countBlocks = 0 then block.bnTarget
      else divWord (mulWord gravity.pastDifficultyAveragePrev (gravity.countBlocks + 1 : Nat) +
        block.bnTarget) ((gravity.countBlocks + 1 : Nat) + 1)) ∧
    (gravity.read block).pastDifficultyAveragePrev =
      (gravity.read block).pastDifficultyAverage := by
  have last : gravity.countBlocks + 1 ≤ pastBlocks := more
  unfold Gravity.read
  dsimp only
  rw [if_pos last, if_pos last]
  refine ⟨?_, rfl⟩
  by_cases first : gravity.countBlocks = 0
  · rw [if_pos first, if_pos (by omega)]
  · rw [if_neg first, if_neg (by omega)]

/-- One round averages exactly. -/
theorem Gravity.Averages.read {gravity : Gravity} {average : Nat}
    (averages : gravity.Averages average) (more : gravity.countBlocks < pastBlocks)
    {block : WorkIndex} (inRange : block.bnTarget.toNat ≤ easiestTarget) :
    (gravity.read block).Averages
      (if gravity.countBlocks = 0 then block.bnTarget.toNat
      else (average * (gravity.countBlocks + 1) + block.bnTarget.toNat) /
        (gravity.countBlocks + 2)) := by
  have last : gravity.countBlocks + 1 ≤ 24 := more
  obtain ⟨next, same⟩ := Gravity.average_read more block
  by_cases first : gravity.countBlocks = 0
  · rw [if_pos first] at next ⊢
    exact ⟨congrArg BitVec.toNat next, fun _ => congrArg BitVec.toNat (same.trans next), inRange⟩
  · have previous := averages.previous first
    have bounded := averages.bounded
    rw [if_neg first] at next ⊢
    have small : average * (gravity.countBlocks + 1) ≤ easiestTarget * (gravity.countBlocks + 1) :=
      Nat.mul_le_mul_right _ bounded
    have smaller : easiestTarget * (gravity.countBlocks + 1) ≤ easiestTarget * 24 :=
      Nat.mul_le_mul_left _ last
    have limit : easiestTarget * 25 < 2 ^ 256 := by decide
    have product : (mulWord gravity.pastDifficultyAveragePrev
        (gravity.countBlocks + 1 : Nat)).toNat =
        average * (gravity.countBlocks + 1) := by
      rw [toNat_mulWord_of_lt (Int.natCast_nonneg _) (by omega), Int.toNat_natCast, previous]
      rw [Int.toNat_natCast, previous]
      omega
    have sum : (mulWord gravity.pastDifficultyAveragePrev (gravity.countBlocks + 1 : Nat) +
        block.bnTarget).toNat = average * (gravity.countBlocks + 1) + block.bnTarget.toNat := by
      rw [BitVec.toNat_add, product]
      exact Nat.mod_eq_of_lt (by omega)
    have quotient : (gravity.read block).pastDifficultyAverage.toNat =
        (average * (gravity.countBlocks + 1) + block.bnTarget.toNat) /
          (gravity.countBlocks + 2) := by
      rw [next, toNat_divWord _ (by omega) (by omega), sum]
      congr 1
    refine ⟨quotient, fun _ => by rw [same, quotient], ?_⟩
    -- an average of numbers below the limit
    apply Nat.div_le_of_le_mul
    have whole : easiestTarget * (gravity.countBlocks + 1) + easiestTarget =
        (gravity.countBlocks + 2) * easiestTarget := by ring
    omega

/-- The average after some rounds. -/
theorem readGravity_averages {rounds : Nat} {chain : List WorkIndex} {gravity : Gravity}
    {average : Nat} (averages : gravity.Averages average)
    (room : gravity.countBlocks + rounds ≤ pastBlocks)
    (inRange : ∀ block ∈ chain.take rounds, block.bnTarget.toNat ≤ easiestTarget) :
    (readGravity rounds chain gravity).Averages
      (averageTarget rounds chain gravity.countBlocks average) ∧
    gravity.countBlocks ≤ (readGravity rounds chain gravity).countBlocks ∧
    (readGravity rounds chain gravity).countBlocks ≤ gravity.countBlocks + rounds := by
  induction rounds generalizing chain gravity average with
  | zero => exact ⟨averages, le_refl _, le_refl _⟩
  | succ rounds ih =>
      cases chain with
      | nil => exact ⟨averages, le_refl _, by rw [readGravity]; omega⟩
      | cons block rest =>
          rw [readGravity, averageTarget]
          by_cases above : block.nHeight > 0
          · rw [if_pos above, if_pos above]
            rw [List.take_succ_cons] at inRange
            have step := averages.read (by omega) (inRange block List.mem_cons_self)
            have later := ih step (by rw [Gravity.countBlocks_read]; omega)
              fun other member => inRange other (List.mem_cons_of_mem _ member)
            rw [Gravity.countBlocks_read] at later
            exact ⟨later.1, by omega, by omega⟩
          · rw [if_neg above, if_neg above]
            exact ⟨averages, le_refl _, by omega⟩

/-- The clamped time span is at most three times the target. -/
theorem clampTimespan_bounds (nActualTimespan : Int) {nTargetTimespan : Int}
    (nonneg : 0 ≤ nTargetTimespan) :
    0 ≤ clampTimespan nActualTimespan nTargetTimespan ∧
      clampTimespan nActualTimespan nTargetTimespan ≤ nTargetTimespan * 3 := by
  unfold clampTimespan
  dsimp only
  split
  · omega
  · split
    · omega
    · omega

/-- Outside regtest a block takes two minutes. -/
theorem targetSpacing_of_ne (network : params.networkID ≠ .regtest) :
    params.targetSpacing = 120 := by
  unfold CChainParams.targetSpacing
  split
  · rename_i regtest
    exact absurd regtest network
  · rfl

/-- **The target of DarkGravity is exact**: nothing wraps around. -/
theorem toNat_gravityTarget (network : params.networkID ≠ .regtest)
    (limit : params.bnProofOfWorkLimit = targetLimit) (inRange : TargetsInRange chain) :
    (gravityTarget params chain).toNat = requiredGravityTarget params chain := by
  have start : ({} : Gravity).Averages 0 :=
    ⟨rfl, fun some => absurd rfl some, Nat.zero_le _⟩
  obtain ⟨averages, -, count⟩ := readGravity_averages start
    (by decide : 0 + pastBlocks ≤ pastBlocks)
    fun block member => (inRange block member).2
  change _ ≤ 0 + 24 at count
  unfold gravityTarget requiredGravityTarget
  dsimp only
  rw [targetSpacing_of_ne network, limit]
  generalize readGravity pastBlocks chain {} = gravity at averages count ⊢
  change gravity.Averages (averageTarget pastBlocks chain 0 0) at averages
  have average := averages.current
  have bounded := averages.bounded
  generalize averageTarget pastBlocks chain 0 0 = mean at average bounded ⊢
  obtain ⟨low, high⟩ := clampTimespan_bounds gravity.nActualTimespan
    (by omega : 0 ≤ (gravity.countBlocks : Int) * 120)
  generalize clampTimespan gravity.nActualTimespan (gravity.countBlocks * 120) = timespan
    at low high ⊢
  have small : mean * timespan.toNat ≤ easiestTarget * 8640 := Nat.mul_le_mul bounded (by omega)
  have room : easiestTarget * 8640 < 2 ^ 256 := by decide
  have quotient : (divWord (mulWord gravity.pastDifficultyAverage timespan)
      (gravity.countBlocks * 120)).toNat =
        mean * timespan.toNat / (gravity.countBlocks * 120 : Int).toNat := by
    rw [toNat_divWord _ (by omega) (by omega),
      toNat_mulWord_of_lt low (by omega) (by rw [average]; omega), average]
  by_cases large : divWord (mulWord gravity.pastDifficultyAverage timespan)
      (gravity.countBlocks * 120) > targetLimit
  · rw [if_pos large]
    rw [gt_iff_lt, BitVec.lt_def, quotient, toNat_targetLimit] at large
    rw [toNat_targetLimit, min_eq_left (le_of_lt large)]
  · rw [if_neg large]
    rw [gt_iff_lt, BitVec.lt_def, quotient, toNat_targetLimit, not_lt] at large
    rw [quotient, min_eq_right large]

/-! ## When the step of staked blocks is exact -/

/-- Outside regtest the time span is one minute. -/
theorem targetTimespan_of_ne (network : params.networkID ≠ .regtest) :
    params.targetTimespan = 60 := by
  unfold CChainParams.targetTimespan
  split
  · rename_i regtest
    exact absurd regtest network
  · rfl

/-- Outside regtest the divisor is 2520. -/
theorem retargetDivisor_of_ne (network : params.networkID ≠ .regtest) :
    retargetDivisor params = 2520 := by
  have spacing := targetSpacing_of_ne network
  have timespan := targetTimespan_of_ne network
  unfold retargetDivisor CChainParams.retargetInterval
  rw [spacing, timespan]
  rfl

/-- Outside regtest the factor is 2280 and twice the spacing. -/
theorem retargetFactor_of_ne (network : params.networkID ≠ .regtest) (last : WorkIndex)
    (rest : List WorkIndex) :
    retargetFactor params last rest = 2280 + 2 * actualSpacing last rest := by
  have spacing := targetSpacing_of_ne network
  have timespan := targetTimespan_of_ne network
  unfold retargetFactor CChainParams.retargetInterval
  rw [spacing, timespan]
  norm_num
  ring

/-- The spacing is not negative. -/
theorem actualSpacing_nonneg (last : WorkIndex) (rest : List WorkIndex) :
    0 ≤ actualSpacing last rest := by
  unfold actualSpacing
  dsimp only
  generalize (if last.nHeight ≠ 0 then _ else _ : Int) = nActualSpacing
  split
  · decide
  · rename_i nonneg
    exact not_lt.mp nonneg

/-- What becomes of a product with the factor of the retarget in the code. -/
def keptProduct (target factor : Nat) : Nat := target * (factor % 2 ^ 32) % 2 ^ 256

/-- **The step is as over unbounded numbers**: the factor has 32 bits and the product 256, or the
true target is at the limit and what is kept of the product is, divided, zero or at the limit too,
up to the precision of the compact form. -/
def StepExact (target factor divisor : Nat) : Prop :=
  (factor < 2 ^ 32 ∧ target * factor < 2 ^ 256) ∨
  (compactLimit ≤ target * factor / divisor ∧
    (keptProduct target factor / divisor = 0 ∨
      compactLimit ≤ keptProduct target factor / divisor))

/-- A target cut to the range, as both computations do in the end. -/
def clipTarget (target : Nat) : Nat :=
  if target = 0 then easiestTarget else min easiestTarget target

/-- A clipped target is positive. -/
theorem clipTarget_pos (target : Nat) : 0 < clipTarget target := by
  unfold clipTarget
  split
  · decide
  · exact lt_min (by decide) (by omega)

/-- A clipped target is not above the easiest one. -/
theorem clipTarget_le (target : Nat) : clipTarget target ≤ easiestTarget := by
  unfold clipTarget
  split
  · exact le_refl _
  · exact min_le_left _ _

/-- When clipping leaves a target that the compact form keeps. -/
theorem compactLimit_le_clipTarget_iff {target : Nat} :
    compactLimit ≤ clipTarget target ↔ target = 0 ∨ compactLimit ≤ target := by
  have limit : compactLimit ≤ easiestTarget := by decide
  unfold clipTarget
  split
  · rename_i zero
    exact ⟨fun _ => Or.inl zero, fun _ => limit⟩
  · rename_i nonzero
    rw [le_min_iff]
    exact ⟨fun both => Or.inr both.2, fun either => ⟨limit, either.resolve_left nonzero⟩⟩

/-- A clipped target fits into a word. -/
theorem toNat_ofNat_clipTarget (target : Nat) :
    (BitVec.ofNat 256 (clipTarget target)).toNat = clipTarget target := by
  have below := clipTarget_le target
  have limit : easiestTarget < 2 ^ 256 := by decide
  exact Nat.mod_eq_of_lt (by omega)

/-- The compact form of two targets, where the first is at the limit. -/
theorem getCompact_clipTarget_eq_iff {first second : Nat} (top : compactLimit ≤ clipTarget first) :
    getCompact (BitVec.ofNat 256 (clipTarget second)) =
      getCompact (BitVec.ofNat 256 (clipTarget first)) ↔ compactLimit ≤ clipTarget second := by
  have atLimit : ∀ target, getCompact (BitVec.ofNat 256 (clipTarget target)) =
      getCompact targetLimit ↔ compactLimit ≤ clipTarget target := by
    intro target
    rw [getCompact_eq_limit_iff, toNat_ofNat_clipTarget]
    · rw [toNat_ofNat_clipTarget]
      exact clipTarget_pos target
    · rw [toNat_ofNat_clipTarget]
      exact clipTarget_le target
  rw [(atLimit first).mpr top, atLimit]

/-- **When the step encodes the target over unbounded numbers.** -/
theorem getCompact_step_eq_iff {target factor divisor : Nat} (positive : 0 < target)
    (divides : 0 < divisor) (small : divisor ≤ 2 ^ 19) :
    getCompact (BitVec.ofNat 256 (clipTarget (keptProduct target factor / divisor))) =
      getCompact (BitVec.ofNat 256 (clipTarget (target * factor / divisor))) ↔
    StepExact target factor divisor := by
  by_cases kept : factor < 2 ^ 32 ∧ target * factor < 2 ^ 256
  · have same : keptProduct target factor = target * factor := by
      unfold keptProduct
      rw [Nat.mod_eq_of_lt kept.1, Nat.mod_eq_of_lt kept.2]
    rw [same]
    exact ⟨fun _ => Or.inl kept, fun _ => rfl⟩
  · unfold StepExact
    rw [or_iff_right kept]
    by_cases top : compactLimit ≤ target * factor / divisor
    · have clipped := compactLimit_le_clipTarget_iff.mpr (Or.inr top)
      rw [getCompact_clipTarget_eq_iff clipped, compactLimit_le_clipTarget_iff, and_iff_right top]
    · -- the product fits, so that the factor was cut, to less than half of it
      refine iff_of_false (fun same => ?_) fun both => top both.1
      have width : compactLimit * 2 ^ 19 < 2 ^ 256 := by decide
      have fits : target * factor < 2 ^ 256 := by
        have product := (Nat.div_lt_iff_lt_mul divides).mp (not_le.mp top)
        have bound := Nat.mul_le_mul_left compactLimit small
        omega
      have long : 2 ^ 32 ≤ factor := not_lt.mp fun short => kept ⟨short, fits⟩
      have half : 2 * (factor % 2 ^ 32) ≤ factor := by omega
      have scaled : target * (factor % 2 ^ 32) * 2 ≤ target * factor := by
        rw [Nat.mul_assoc, Nat.mul_comm _ 2]
        exact Nat.mul_le_mul_left _ half
      have cut : keptProduct target factor = target * (factor % 2 ^ 32) :=
        Nat.mod_eq_of_lt (by omega)
      rw [cut] at same
      have twice : target * (factor % 2 ^ 32) / divisor * 2 ≤ target * factor / divisor := by
        rw [Nat.le_div_iff_mul_le divides, Nat.mul_right_comm]
        exact le_trans (Nat.mul_le_mul_right _ (Nat.div_mul_le_self _ _)) scaled
      have large : target * factor / divisor ≠ 0 := by
        have whole : 1 * 2 ^ 32 ≤ target * factor := Nat.mul_le_mul positive long
        exact Nat.pos_iff_ne_zero.mp (Nat.div_pos (by omega) divides)
      by_cases zero : target * (factor % 2 ^ 32) / divisor = 0
      · have clipped := compactLimit_le_clipTarget_iff.mpr (Or.inl zero)
        have limits := (getCompact_clipTarget_eq_iff clipped).mp same.symm
        exact (compactLimit_le_clipTarget_iff.mp limits).elim large top
      · have limit : compactLimit ≤ easiestTarget := by decide
        have first : clipTarget (target * (factor % 2 ^ 32) / divisor) =
            target * (factor % 2 ^ 32) / divisor := by
          rw [clipTarget, if_neg zero, min_eq_right (by omega)]
        have second : clipTarget (target * factor / divisor) = target * factor / divisor := by
          rw [clipTarget, if_neg large, min_eq_right (by omega)]
        have near := lt_two_mul_of_getCompact_eq
          (by rw [toNat_ofNat_clipTarget]; exact clipTarget_pos _)
          (by rw [toNat_ofNat_clipTarget]; exact clipTarget_pos _) same
        rw [toNat_ofNat_clipTarget, toNat_ofNat_clipTarget, first, second] at near
        omega

/-- The next target of a stake, clipped. -/
theorem toNat_stakeTarget (network : params.networkID ≠ .regtest) {last : WorkIndex}
    {rest : List WorkIndex} (above : params.nLastPOWBlock + 2 < last.nHeight) :
    (stakeTarget params last rest).toNat = clipTarget
      (keptProduct last.bnTarget.toNat (retargetFactor params last rest).toNat / 2520) := by
  have factor : 0 ≤ retargetFactor params last rest := by
    have spacing := actualSpacing_nonneg last rest
    rw [retargetFactor_of_ne network]
    omega
  have quotient : (divWord (mulWord last.bnTarget (retargetFactor params last rest))
      (retargetDivisor params)).toNat =
        keptProduct last.bnTarget.toNat (retargetFactor params last rest).toNat / 2520 := by
    rw [retargetDivisor_of_ne network, toNat_divWord _ (by decide) (by decide),
      toNat_mulWord _ factor]
    rfl
  unfold stakeTarget
  dsimp only
  rw [if_neg (not_le.mpr above), ← quotient]
  generalize divWord (mulWord last.bnTarget (retargetFactor params last rest))
    (retargetDivisor params) = bnNew
  unfold clipTarget
  rw [← toNat_targetLimit]
  by_cases zero : bnNew.toNat = 0
  · rw [if_pos (Or.inl (BitVec.le_def.mpr (by rw [zero]; exact Nat.zero_le _))), if_pos zero]
  · rw [if_neg zero]
    by_cases large : bnNew > targetLimit
    · rw [if_pos (Or.inr large), min_eq_left (le_of_lt (BitVec.lt_def.mp large))]
    · have low : ¬ bnNew ≤ 0 := fun low => zero (Nat.le_zero.mp (BitVec.le_def.mp low))
      rw [if_neg (not_or.mpr ⟨low, large⟩), min_eq_right (not_lt.mp (BitVec.lt_def.not.mp large))]

/-- The target that the formula asks for, clipped. -/
theorem requiredStakeTarget_eq (network : params.networkID ≠ .regtest) {last : WorkIndex}
    {rest : List WorkIndex} (above : params.nLastPOWBlock + 2 < last.nHeight) :
    requiredStakeTarget params last rest = clipTarget
      (last.bnTarget.toNat * (retargetFactor params last rest).toNat / 2520) := by
  unfold requiredStakeTarget clipTarget
  rw [if_neg (not_le.mpr above), retargetDivisor_of_ne network]
  rfl

/-- The step after the last block of a chain is as over unbounded numbers, if it is a step of the
retarget of staked blocks. -/
def RetargetExact (params : CChainParams) : List WorkIndex → Prop
  | [] => True
  | last :: rest =>
      pastBlocks ≤ last.nHeight → params.nLastPOWBlock + 2 < last.nHeight →
      StepExact last.bnTarget.toNat (2280 + 2 * actualSpacing last rest).toNat 2520

/-- **When the next target is the one over unbounded numbers.** -/
theorem getNextWorkRequired_eq_iff (params : CChainParams) (chain : List WorkIndex)
    (network : params.networkID ≠ .regtest) (limit : params.bnProofOfWorkLimit = targetLimit)
    (inRange : TargetsInRange chain) :
    getNextWorkRequired params chain =
        getCompact (BitVec.ofNat 256 (requiredTarget params chain)) ↔
      RetargetExact params chain := by
  have easiest : BitVec.ofNat 256 easiestTarget = targetLimit := by decide
  cases chain with
  | nil =>
      refine iff_of_true ?_ trivial
      rw [getNextWorkRequired, requiredTarget, limit, easiest]
  | cons last rest =>
      unfold getNextWorkRequired requiredTarget RetargetExact
      dsimp only
      rw [if_neg network]
      by_cases low : last.nHeight = 0 ∨ last.nHeight < pastBlocks
      · rw [if_pos low, if_pos low, limit, easiest]
        refine iff_of_true rfl fun high => absurd low ?_
        have : (pastBlocks : Int) = 24 := rfl
        omega
      rw [if_neg low, if_neg low]
      by_cases staked : last.nHeight ≥ params.nLastPOWBlock
      · rw [if_pos staked, if_pos staked]
        by_cases above : params.nLastPOWBlock + 2 < last.nHeight
        · have positive := (inRange last List.mem_cons_self).1
          have word : stakeTarget params last rest = BitVec.ofNat 256 (clipTarget
              (keptProduct last.bnTarget.toNat
                (retargetFactor params last rest).toNat / 2520)) := by
            apply BitVec.eq_of_toNat_eq
            rw [toNat_stakeTarget network above, toNat_ofNat_clipTarget]
          rw [word, requiredStakeTarget_eq network above,
            getCompact_step_eq_iff positive (by decide) (by decide), retargetFactor_of_ne network]
          have high : (pastBlocks : Int) ≤ last.nHeight := not_lt.mp (not_or.mp low).2
          exact ⟨fun exact_ _ _ => exact_, fun exact_ => exact_ high above⟩
        · refine iff_of_true ?_ fun _ over_ => absurd over_ above
          have transition : last.nHeight ≤ params.nLastPOWBlock + 2 := not_lt.mp above
          have target : stakeTarget params last rest = targetLimit := by
            unfold stakeTarget
            dsimp only
            rw [if_pos transition, ite_self]
          rw [target, requiredStakeTarget, if_pos transition, easiest]
      · rw [if_neg staked, if_neg staked]
        refine iff_of_true ?_ fun _ over_ => absurd over_ (by omega)
        rw [← toNat_gravityTarget network limit inRange, BitVec.ofNat_toNat, BitVec.setWidth_eq]

end

/-- A chain of staked blocks two minutes apart, but for the last block, at this target. -/
def stalledChain (nBits : UInt32) (spacing : UInt32) : List WorkIndex :=
  ⟨100024, 1540000000 + spacing, nBits, true⟩ ::
    (List.range 24).map fun (past : Nat) =>
      ⟨100023 - past, 1540000000 - 120 * UInt32.ofNat past, nBits, true⟩

/-- The targets of the example are in range. -/
theorem targetsInRange_stalledChain {nBits spacing : UInt32}
    (positive : 0 < (setCompact nBits).target.toNat)
    (below : (setCompact nBits).target.toNat ≤ easiestTarget) :
    TargetsInRange (stalledChain nBits spacing) := by
  have bits : ∀ block ∈ stalledChain nBits spacing, block.nBits = nBits := by
    intro block member
    rcases List.mem_cons.mp member with rfl | later
    · rfl
    · obtain ⟨past, -, rfl⟩ := List.mem_map.mp later
      rfl
  intro block member
  unfold WorkIndex.bnTarget
  rw [bits block (List.mem_of_mem_take member)]
  exact ⟨positive, below⟩

/-- Blocks two minutes apart. -/
theorem getNextWorkRequired_eq_regular :
    getNextWorkRequired CChainParams.main (stalledChain 0x1c0fffff 120) =
      getCompact (BitVec.ofNat 256
        (requiredTarget CChainParams.main (stalledChain 0x1c0fffff 120))) :=
  (getNextWorkRequired_eq_iff CChainParams.main (stalledChain 0x1c0fffff 120) (by decide)
    (by decide +kernel) (targetsInRange_stalledChain (by decide) (by decide))).mpr
    fun _ _ => Or.inl (by decide +kernel)

/-- After a stall of a good six days near the limit, the product wraps around to a small number. -/
theorem getNextWorkRequired_ne_stalled :
    ¬ ∀ (params : CChainParams) (chain : List WorkIndex), params.networkID ≠ .regtest →
      params.bnProofOfWorkLimit = targetLimit → TargetsInRange chain →
      getNextWorkRequired params chain =
        getCompact (BitVec.ofNat 256 (requiredTarget params chain)) := by
  intro all
  have differ : getNextWorkRequired CChainParams.main (stalledChain 0x1e0fffff 523149) ≠
      getCompact (BitVec.ofNat 256
        (requiredTarget CChainParams.main (stalledChain 0x1e0fffff 523149))) := by
    decide +kernel
  exact differ (all CChainParams.main (stalledChain 0x1e0fffff 523149) (by decide)
    (by decide +kernel) (targetsInRange_stalledChain (by decide) (by decide)))

end GiantCore
