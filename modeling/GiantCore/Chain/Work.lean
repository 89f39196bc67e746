import GiantCore.BlockIndex.Tree
import Mathlib.Algebra.Order.Ring.Nat
import Mathlib.Data.Nat.Bitwise
import Mathlib.Tactic.Ring

/-! # Work and trust of a block

What a block adds to the chain: its proof (`GetBlockProof`) and its trust
(`CBlockIndex::GetBlockTrust`), both from the target of the block. The proof is
2²⁵⁶ divided by one more than the target, although 2²⁵⁶ does not fit into a word.
The trust of a proof-of-stake block is meant to be the same quotient, but shifts
the one out of the word.
-/

namespace GiantCore

/-- The fields of `CBlockIndex` that work, trust and the next target are computed from. -/
structure WorkIndex where
  nHeight : Int
  nTime : UInt32
  nBits : UInt32
  /-- `IsProofOfStake`. -/
  fProofOfStake : Bool := false
  deriving DecidableEq, Repr

/-- The target of a block. -/
def WorkIndex.bnTarget (index : WorkIndex) : Uint256 := (Uint256.setCompact index.nBits).target

/-- `CBlockIndex::GetBlockTrust`. -/
def getBlockTrust (block : WorkIndex) : Uint256 :=
  let bnTarget := block.bnTarget
  if bnTarget ≤ 0 then 0
  else if block.fProofOfStake then ((1 : Uint256) <<< 256) / (bnTarget + 1)
  else
    let bnPoWTrust := (~~~(0 : Uint256) >>> 20) / (bnTarget + 1)
    if bnPoWTrust > 1 then bnPoWTrust else 1

/-! ## Targets as numbers -/

namespace Uint256

/-- No compact form stands for the largest word. -/
theorem setCompact_target_lt (nCompact : UInt32) :
    (setCompact nCompact).target.toNat < 2 ^ 256 - 1 := by
  have mantissa : nCompact.toNat &&& 0x007fffff < 2 ^ 23 :=
    Nat.lt_of_le_of_lt Nat.and_le_right (by decide)
  unfold setCompact
  dsimp only
  generalize nCompact.toNat &&& 0x007fffff = word at mantissa
  generalize nCompact.toNat >>> 24 = nSize
  by_cases short : nSize ≤ 3
  · rw [if_pos short, if_pos short, BitVec.toNat_ofNat]
    have small : word >>> (8 * (3 - nSize)) ≤ word := Nat.shiftRight_le _ _
    exact Nat.lt_of_le_of_lt (Nat.mod_le _ _) (by omega)
  · rw [if_neg short, if_neg short, BitVec.toNat_shiftLeft, Nat.shiftLeft_eq]
    -- the last byte is zero
    obtain ⟨zeros, rfl⟩ : ∃ zeros, nSize = zeros + 3 := ⟨nSize - 3, by omega⟩
    rw [Nat.add_sub_cancel]
    cases zeros with
    | zero =>
        rw [Nat.mul_zero, Nat.pow_zero, Nat.mul_one, BitVec.toNat_ofNat]
        omega
    | succ zeros =>
        have even : ∀ number : Nat, number * 2 ^ (8 * (zeros + 1)) =
            2 * (number * 2 ^ (8 * zeros + 7)) := by
          intro number
          rw [show 8 * (zeros + 1) = 8 * zeros + 7 + 1 by omega, Nat.pow_succ]
          ring
        rw [even]
        omega

/-- A word that a target can be has a successor. -/
theorem toNat_target_add_one (nCompact : UInt32) :
    ((setCompact nCompact).target + 1).toNat = (setCompact nCompact).target.toNat + 1 := by
  rw [BitVec.toNat_add]
  exact Nat.mod_eq_of_lt (by have := setCompact_target_lt nCompact; simp; omega)

end Uint256

namespace WorkIndex

/-- The bits decode to a target that is not negative, does not overflow and is not zero. -/
structure Decodes (block : WorkIndex) : Prop where
  positive : (Uint256.setCompact block.nBits).fNegative = false
  fits : (Uint256.setCompact block.nBits).fOverflow = false
  nonzero : block.bnTarget ≠ 0

variable {block : WorkIndex}

theorem Decodes.toNat_pos (decodes : block.Decodes) : 0 < block.bnTarget.toNat :=
  Nat.pos_of_ne_zero fun zero => decodes.nonzero (BitVec.eq_of_toNat_eq zero)

theorem toNat_bnTarget_add_one (block : WorkIndex) :
    (block.bnTarget + 1).toNat = block.bnTarget.toNat + 1 :=
  Uint256.toNat_target_add_one block.nBits

theorem bnTarget_lt (block : WorkIndex) : block.bnTarget.toNat < 2 ^ 256 - 1 :=
  Uint256.setCompact_target_lt block.nBits

/-! ## The proof -/

/-- **The proof is the exact quotient** of 2²⁵⁶ and one more than the target. -/
theorem toNat_getBlockProof (decodes : block.Decodes) :
    (getBlockProof block.nBits).toNat = 2 ^ 256 / (block.bnTarget.toNat + 1) := by
  have positive := decodes.toNat_pos
  have below := block.bnTarget_lt
  have quotient : (2 ^ 256 - 1 - block.bnTarget.toNat) / (block.bnTarget.toNat + 1) + 1 =
      2 ^ 256 / (block.bnTarget.toNat + 1) := by
    rw [← Nat.add_div_right _ (Nat.succ_pos _)]
    congr 1
    omega
  have small : 2 ^ 256 / (block.bnTarget.toNat + 1) < 2 ^ 256 :=
    Nat.div_lt_self (by decide) (by omega)
  have read : getBlockProof block.nBits = ~~~block.bnTarget / (block.bnTarget + 1) + 1 := by
    unfold getBlockProof
    dsimp only
    have nonzero : ((Uint256.setCompact block.nBits).target == 0) = false :=
      beq_false_of_ne decodes.nonzero
    rw [decodes.positive, decodes.fits, nonzero]
    rfl
  rw [read, BitVec.toNat_add, BitVec.toNat_udiv, BitVec.toNat_not, toNat_bnTarget_add_one]
  change (_ / _ + 1) % 2 ^ 256 = _
  rw [quotient, Nat.mod_eq_of_lt small]

theorem getBlockProof_pos (decodes : block.Decodes) : 0 < getBlockProof block.nBits := by
  rw [BitVec.lt_def, toNat_getBlockProof decodes]
  exact Nat.div_pos (by have := block.bnTarget_lt; omega) (Nat.succ_pos _)

theorem getBlockProof_anti {other : WorkIndex} (decodes : block.Decodes)
    (decodesOther : other.Decodes) (harder : block.bnTarget ≤ other.bnTarget) :
    getBlockProof other.nBits ≤ getBlockProof block.nBits := by
  rw [BitVec.le_def, toNat_getBlockProof decodes, toNat_getBlockProof decodesOther]
  exact Nat.div_le_div_left (Nat.succ_le_succ (BitVec.le_def.mp harder)) (Nat.succ_pos _)

/-! ## The trust -/

theorem not_bnTarget_le_zero (decodes : block.Decodes) : ¬ block.bnTarget ≤ 0 := by
  have positive := decodes.toNat_pos
  rw [BitVec.le_def]
  exact not_le.mpr positive

/-- The one is shifted out of the word. -/
theorem getBlockTrust_of_proofOfStake (stake : block.fProofOfStake = true) :
    getBlockTrust block = 0 := by
  have one : (1 : Uint256) <<< 256 = 0 := by decide
  unfold getBlockTrust
  dsimp only
  rw [if_pos stake, one, show (0 : Uint256) / (block.bnTarget + 1) = 0 from BitVec.zero_udiv,
    ite_self]

/-- The quotient of 2²³⁶ - 1 and one more than the target, or one if that is zero. -/
theorem toNat_getBlockTrust (decodes : block.Decodes) (work : block.fProofOfStake = false) :
    (getBlockTrust block).toNat = max ((2 ^ 236 - 1) / (block.bnTarget.toNat + 1)) 1 := by
  have limit : (~~~(0 : Uint256) >>> 20).toNat = 2 ^ 236 - 1 := by decide
  unfold getBlockTrust
  dsimp only
  rw [if_neg (not_bnTarget_le_zero decodes), work, if_neg Bool.false_ne_true]
  have quotient : ((~~~(0 : Uint256) >>> 20) / (block.bnTarget + 1)).toNat =
      (2 ^ 236 - 1) / (block.bnTarget.toNat + 1) := by
    rw [BitVec.toNat_udiv, limit, toNat_bnTarget_add_one]
  split
  · rename_i large
    rw [gt_iff_lt, BitVec.lt_def, quotient] at large
    rw [quotient]
    exact (max_eq_left (le_of_lt large)).symm
  · rename_i small
    rw [gt_iff_lt, BitVec.lt_def, quotient] at small
    exact (max_eq_right (not_lt.mp small)).symm

theorem getBlockTrust_pos (decodes : block.Decodes) (work : block.fProofOfStake = false) :
    0 < getBlockTrust block := by
  rw [BitVec.lt_def, toNat_getBlockTrust decodes work]
  exact lt_of_lt_of_le Nat.one_pos (le_max_right _ _)

theorem getBlockTrust_anti {other : WorkIndex} (decodes : block.Decodes)
    (decodesOther : other.Decodes) (work : block.fProofOfStake = false)
    (workOther : other.fProofOfStake = false) (harder : block.bnTarget ≤ other.bnTarget) :
    getBlockTrust other ≤ getBlockTrust block := by
  rw [BitVec.le_def, toNat_getBlockTrust decodes work, toNat_getBlockTrust decodesOther workOther]
  exact max_le_max_right _ (Nat.div_le_div_left (Nat.succ_le_succ (BitVec.le_def.mp harder))
    (Nat.succ_pos _))

/-- **The measures of a block are sound**: its proof is the exact quotient, and proof and trust are
positive and do not grow with the target. -/
structure Sound (block : WorkIndex) : Prop where
  proof : (getBlockProof block.nBits).toNat = 2 ^ 256 / (block.bnTarget.toNat + 1)
  proof_pos : 0 < getBlockProof block.nBits
  proof_anti : ∀ other : WorkIndex, other.Decodes → block.bnTarget ≤ other.bnTarget →
    getBlockProof other.nBits ≤ getBlockProof block.nBits
  trust_pos : 0 < getBlockTrust block
  trust_anti : ∀ other : WorkIndex, other.Decodes →
    other.fProofOfStake = block.fProofOfStake → block.bnTarget ≤ other.bnTarget →
    getBlockTrust other ≤ getBlockTrust block

/-- **Exactly the measures of proof-of-work blocks are sound.** -/
theorem sound_iff_proofOfWork (block : WorkIndex) (decodes : block.Decodes) :
    block.Sound ↔ block.fProofOfStake = false := by
  constructor
  · intro sound
    by_contra stake
    have zero := getBlockTrust_of_proofOfStake (Bool.not_eq_false _ ▸ stake)
    exact absurd sound.trust_pos (by rw [zero]; decide)
  · intro work
    exact
      { proof := toNat_getBlockProof decodes
        proof_pos := getBlockProof_pos decodes
        proof_anti := fun other decodesOther harder =>
          getBlockProof_anti decodes decodesOther harder
        trust_pos := getBlockTrust_pos decodes work
        trust_anti := fun other decodesOther same harder =>
          getBlockTrust_anti decodes decodesOther work (same.trans work) harder }

/-- A block with the easiest target. -/
def easiest (fProofOfStake : Bool) : WorkIndex := ⟨100000, 1540000000, 0x1e0fffff, fProofOfStake⟩

theorem sound_easiest : (easiest false).Sound :=
  (sound_iff_proofOfWork (easiest false) ⟨by decide, by decide, by decide⟩).mpr rfl

/-- A proof-of-stake block with the easiest target has no trust. -/
theorem not_sound_easiest :
    ¬ ∀ block : WorkIndex, block.Decodes → block.Sound := by
  intro all
  have sound := all (easiest true) ⟨by decide, by decide, by decide⟩
  exact absurd sound.trust_pos (by decide)

end WorkIndex

end GiantCore
