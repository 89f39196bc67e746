import GiantCore.Chain.Retarget
import GiantCore.Stake.Kernel

/-! # Whether more stake helps

`stakeTargetHit` multiplies the target with the weight of the stake in 256 bits. For the targets
near the limit the product wraps around already for a stake of little more than one coin, so that a
larger stake can miss the target that a smaller one hits. Up to which stake this cannot happen is
`moreStake_iff`.
-/

namespace GiantCore

namespace StakeInput

variable {target : Uint256}

/-- The weight of a stake: a hundredth of its value. -/
def weight (nValue : Int) : Nat := (nValue / 100).toNat

theorem weight_mono {smaller larger : Int} (le : smaller ≤ larger) :
    weight smaller ≤ weight larger := by
  unfold weight
  omega

/-- A hit is a comparison with the product in 256 bits. -/
theorem stakeTargetHit_iff {hash : Uint256} {nValue : Int} (nonneg : 0 ≤ nValue)
    (short : nValue < 2 ^ 63) :
    stakeTargetHit hash nValue target = true ↔
      hash.toNat < weight nValue * target.toNat % 2 ^ 256 := by
  obtain ⟨nValue, rfl⟩ := Int.eq_ofNat_of_zero_le nonneg
  have word : ((BitVec.ofInt 64 (nValue : Int)).setWidth 256).toNat = nValue := by
    rw [BitVec.ofInt_natCast, BitVec.toNat_setWidth, BitVec.toNat_ofNat,
      Nat.mod_eq_of_lt (by omega : nValue < 2 ^ 64)]
    exact Nat.mod_eq_of_lt (by omega)
  have hundredth : ((BitVec.ofInt 64 (nValue : Int)).setWidth 256 / 100 : Uint256).toNat =
      weight nValue := by
    rw [BitVec.toNat_udiv, word]
    rfl
  unfold stakeTargetHit
  rw [decide_eq_true_iff, BitVec.lt_def, BitVec.toNat_mul, hundredth]

/-- More stake never hurts, for stakes up to an amount. -/
def MoreStakeHelps (target : Uint256) (largest : Int) : Prop :=
  ∀ (hash : Uint256) (smaller larger : Int), 0 ≤ smaller → smaller ≤ larger → larger ≤ largest →
    stakeTargetHit hash smaller target = true → stakeTargetHit hash larger target = true

/-- A hit is a comparison with the product over the integers, for stakes up to an amount. -/
def HitsExactly (target : Uint256) (largest : Int) : Prop :=
  ∀ (hash : Uint256) (nValue : Int), 0 ≤ nValue → nValue ≤ largest →
    (stakeTargetHit hash nValue target = true ↔ hash.toNat < weight nValue * target.toNat)

theorem hitsExactly_of_lt {largest : Int} (short : largest < 2 ^ 63)
    (fits : weight largest * target.toNat < 2 ^ 256) : HitsExactly target largest := by
  intro hash nValue nonneg le
  have product : weight nValue * target.toNat < 2 ^ 256 :=
    lt_of_le_of_lt (Nat.mul_le_mul_right _ (weight_mono le)) fits
  rw [stakeTargetHit_iff nonneg (by omega), Nat.mod_eq_of_lt product]

theorem HitsExactly.moreStakeHelps {largest : Int} (hits : HitsExactly target largest) :
    MoreStakeHelps target largest := by
  intro hash smaller larger nonneg le bounded hit
  rw [hits hash smaller nonneg (le_trans le bounded)] at hit
  rw [hits hash larger (le_trans nonneg le) bounded]
  exact lt_of_lt_of_le hit (Nat.mul_le_mul_right _ (weight_mono le))

/-- The stake of the first weight whose product wraps around misses a hash that one weight less
hits. -/
theorem exists_harmful {largest : Int} (short : largest < 2 ^ 63)
    (wraps : 2 ^ 256 ≤ weight largest * target.toNat) :
    ∃ (hash : Uint256) (smaller larger : Int), 0 ≤ smaller ∧ smaller ≤ larger ∧ larger ≤ largest ∧
      stakeTargetHit hash smaller target = true ∧ ¬ stakeTargetHit hash larger target = true := by
  have word := target.isLt
  have positive : 0 < target.toNat := by
    apply Nat.pos_of_ne_zero
    intro zero
    rw [zero, Nat.mul_zero] at wraps
    exact absurd wraps (by decide)
  -- the last weight whose product fits
  obtain ⟨last, fits, next⟩ : ∃ last, last * target.toNat < 2 ^ 256 ∧
      2 ^ 256 ≤ (last + 1) * target.toNat := by
    have below := Nat.div_mul_le_self (2 ^ 256 - 1) target.toNat
    have above := Nat.lt_div_mul_add positive (a := 2 ^ 256 - 1)
    refine ⟨(2 ^ 256 - 1) / target.toNat, by omega, ?_⟩
    rw [Nat.succ_mul]
    omega
  have some_ : 1 ≤ last := by
    by_contra none
    obtain rfl : last = 0 := by omega
    rw [Nat.zero_add, Nat.one_mul] at next
    omega
  have within : last + 1 ≤ weight largest := by
    by_contra beyond
    exact absurd (Nat.mul_le_mul_right target.toNat (by omega : weight largest ≤ last)) (by omega)
  have step : (last + 1) * target.toNat = last * target.toNat + target.toNat := Nat.succ_mul _ _
  have single : target.toNat ≤ last * target.toNat := Nat.le_mul_of_pos_left _ some_
  have weigh : ∀ number : Nat, weight (100 * number : Nat) = number := by
    intro number
    unfold weight
    omega
  have amount : ((100 * (last + 1) : Nat) : Int) ≤ largest := by
    unfold weight at within
    omega
  have rest : ((last + 1) * target.toNat) % 2 ^ 256 = (last + 1) * target.toNat - 2 ^ 256 := by
    omega
  refine ⟨BitVec.ofNat 256 ((last + 1) * target.toNat - 2 ^ 256), (100 * last : Nat),
    (100 * (last + 1) : Nat), by omega, by omega, amount, ?_, ?_⟩
  · rw [stakeTargetHit_iff (by omega) (by omega), weigh, Nat.mod_eq_of_lt fits,
      BitVec.toNat_ofNat, Nat.mod_eq_of_lt (by omega)]
    omega
  · rw [stakeTargetHit_iff (by omega) (by omega), weigh, rest, BitVec.toNat_ofNat,
      Nat.mod_eq_of_lt (by omega)]
    exact lt_irrefl _

/-- **More stake never hurts, and hits are exact, up to exactly the stakes whose product with the
target fits into 256 bits.** -/
theorem moreStake_iff (target : Uint256) (largest : Int)
    (money : largest ≤ CChainParams.main.nMaxMoneyOut) :
    (MoreStakeHelps target largest ↔ weight largest * target.toNat < 2 ^ 256) ∧
    (HitsExactly target largest ↔ weight largest * target.toNat < 2 ^ 256) := by
  have short : largest < 2 ^ 63 := lt_of_le_of_lt money (by decide)
  have helps : MoreStakeHelps target largest → weight largest * target.toNat < 2 ^ 256 := by
    intro helps
    by_contra wraps
    obtain ⟨hash, smaller, larger, least, le, bounded, hit, miss⟩ :=
      exists_harmful short (not_lt.mp wraps)
    exact miss (helps hash smaller larger least le bounded hit)
  exact ⟨⟨helps, fun fits => (hitsExactly_of_lt short fits).moreStakeHelps⟩,
    ⟨fun hits => helps hits.moreStakeHelps, fun fits => hitsExactly_of_lt short fits⟩⟩

/-- A stake of a hundred coins at a target that is 2²⁸ times harder than the limit. -/
theorem moreStake_hundredCoins :
    MoreStakeHelps (Uint256.setCompact 0x1a0fffff).target (100 * COIN) :=
  (moreStake_iff (Uint256.setCompact 0x1a0fffff).target (100 * COIN)
    (by decide)).1.mpr (by decide +kernel)

/-- At the limit, which is a next target, a stake just above a coin misses what a smaller one
hits. -/
theorem not_moreStakeHelps_atLimit :
    ¬ ∀ (params : CChainParams) (chain : List WorkIndex) (nBits : UInt32) (largest : Int),
      nBits.toNat = getNextWorkRequired params chain → 0 ≤ largest →
      largest ≤ params.nMaxMoneyOut →
      MoreStakeHelps (Uint256.setCompact nBits).target largest := by
  intro all
  have helps := all CChainParams.main (stalledChain 0x1e0fffff 86400) 0x1e0fffff 104857800
    (by decide +kernel) (by decide) (by decide)
  exact absurd (helps (BitVec.ofNat 256 ((2 ^ 20 - 2) * 2 ^ 216)) 104857700 104857800 (by decide)
    (by decide) (by decide) (by decide +kernel)) (by decide +kernel)

end StakeInput

end GiantCore
