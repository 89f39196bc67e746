import GiantCore.Primitives.Transaction

/-! # Chain parameters

The constants of `chainparams.cpp` that validation, the masternode payments and
the budget read, and the block subsidy of `main.cpp`. The reward factors are
floating point numbers in the source; here each is the function that multiplies
a block value with its factor.
-/

namespace GiantCore

/-- `CBaseChainParams::Network`. -/
inductive Network where
  | main
  | testnet
  | regtest
  | unittest
  deriving DecidableEq, Repr

structure CChainParams where
  networkID : Network
  nDefaultPort : UInt16
  nGenesisTime : Int
  bnProofOfWorkLimit : Uint256
  nMaxReorganizationDepth : Int
  nEnforceBlockUpgradeMajority : Nat
  nRejectBlockOutdatedMajority : Nat
  nToCheckBlockUpgradeMajority : Nat
  nLastPOWBlock : Int
  nMaxMoneyOut : CAmount
  fMineBlocksOnDemand : Bool
  fSkipProofOfWorkCheck : Bool
  nBudgetCycleBlocks : Int
  nTiersActivationHeight : Int
  nDeprecatedPeriod : Int
  nDeprecatedCollateralPrice : CAmount
  nMasternodeCollateralPrice : CAmount
  nSupernodeCollateralPrice : CAmount
  nStakeMinAmount : CAmount
  nMinStakeActivationHeight : Int
  nZerocoinStartHeight : Int
  /-- The field is an `int`. -/
  nZerocoinStartTime : Int
  nBlockEnforceSerialRange : Int
  nBlockRecalculateAccumulators : Int
  nBlockLastGoodCheckpoint : Int
  nBlockZerocoinV2 : Int
  nBlockDoubleAccumulated : Int
  nFakeSerialBlockheightEnd : Int
  nMaxZerocoinSpendsPerTransaction : Nat
  nZerocoinRequiredStakeDepth : Int
  nRequiredAccumulation : Int
  /-- Multiplication with `dDeprecatedRewardFactor`. -/
  deprecatedReward : CAmount → CAmount
  /-- Multiplication with `dMasternodeRewardFactor`. -/
  masternodeReward : CAmount → CAmount
  /-- Multiplication with `dSupernodeRewardFactor`. -/
  supernodeReward : CAmount → CAmount

namespace CChainParams

/-- The main network. Its reward factors are 0.8, 0.16 and 0.64. -/
def main : CChainParams where
  networkID := .main
  nDefaultPort := 40444
  nGenesisTime := 1525748356
  bnProofOfWorkLimit := (~~~(0 : Uint256)) >>> 20
  nMaxReorganizationDepth := 100
  nEnforceBlockUpgradeMajority := 8100
  nRejectBlockOutdatedMajority := 10260
  nToCheckBlockUpgradeMajority := 10800
  nLastPOWBlock := 71400
  nMaxMoneyOut := 100000000 * COIN
  fMineBlocksOnDemand := false
  fSkipProofOfWorkCheck := true
  nBudgetCycleBlocks := 21600
  nTiersActivationHeight := 368200
  nDeprecatedPeriod := 700
  nDeprecatedCollateralPrice := 1000
  nMasternodeCollateralPrice := 5000
  nSupernodeCollateralPrice := 20000
  nStakeMinAmount := 100 * COIN
  nMinStakeActivationHeight := 380000
  nZerocoinStartHeight := 99999999
  nZerocoinStartTime := storeInt 9999999999
  nBlockEnforceSerialRange := 895400
  nBlockRecalculateAccumulators := 908000
  nBlockLastGoodCheckpoint := 891730
  nBlockZerocoinV2 := 1153160
  nBlockDoubleAccumulated := 1050010
  nFakeSerialBlockheightEnd := 1686229
  nMaxZerocoinSpendsPerTransaction := 7
  nZerocoinRequiredStakeDepth := 200
  nRequiredAccumulation := 1
  deprecatedReward v := v * 80 / 100
  masternodeReward v := v * 16 / 100
  supernodeReward v := v * 64 / 100

/-- The test network. -/
def testnet : CChainParams :=
  { main with
    networkID := .testnet
    nDefaultPort := 55600
    nGenesisTime := 1569069261
    nEnforceBlockUpgradeMajority := 51
    nRejectBlockOutdatedMajority := 75
    nToCheckBlockUpgradeMajority := 100
    nLastPOWBlock := 1000
    nBudgetCycleBlocks := 144
    nTiersActivationHeight := 1500
    nDeprecatedPeriod := 1000
    nSupernodeCollateralPrice := 10000
    nStakeMinAmount := 1 * COIN
    nMinStakeActivationHeight := 1000 }

/-- The regression test network. -/
def regtest : CChainParams :=
  { testnet with
    networkID := .regtest
    nDefaultPort := 43444
    nGenesisTime := 1509321603
    nEnforceBlockUpgradeMajority := 750
    nRejectBlockOutdatedMajority := 950
    nToCheckBlockUpgradeMajority := 1000
    bnProofOfWorkLimit := (~~~(0 : Uint256)) >>> 1
    nLastPOWBlock := 250
    nMaxMoneyOut := 43199500 * COIN
    fMineBlocksOnDemand := true
    nZerocoinStartHeight := 300
    nZerocoinStartTime := 1501776000
    nBlockEnforceSerialRange := 1
    nBlockRecalculateAccumulators := 999999999
    nBlockLastGoodCheckpoint := 999999999
    nBlockZerocoinV2 := 300
    nFakeSerialBlockheightEnd := -1 }

variable (params : CChainParams)

def isTiersMasternodeEnabled (height : Int) : Bool := params.nTiersActivationHeight ≤ height

def deprecatedCollateralPrice (height : Int) : CAmount :=
  if !params.isTiersMasternodeEnabled (height - params.nDeprecatedPeriod) then
    params.nDeprecatedCollateralPrice
  else 0

def masternodeCollateralPrice (height : Int) : CAmount :=
  if params.isTiersMasternodeEnabled height then params.nMasternodeCollateralPrice else 0

def supernodeCollateralPrice (height : Int) : CAmount :=
  if params.isTiersMasternodeEnabled height then params.nSupernodeCollateralPrice else 0

/-- `GetBlockValue`: the subsidy at a height. -/
def getBlockValue (nHeight : Int) : CAmount :=
  if nHeight = 0 then 200000 * COIN
  else if params.networkID = .testnet then 100 * COIN
  else if nHeight < 500 then 0 * COIN
  else if nHeight < 20000 then 10 * COIN
  else if nHeight < 40000 then 15 * COIN
  else if nHeight ≤ 262800 then 20 * COIN
  else if nHeight ≤ 525600 then 10 * COIN
  else if nHeight ≤ 788400 then 8 * COIN
  else if nHeight ≤ 1051200 then 6 * COIN
  else if nHeight ≤ 1314000 then 4 * COIN
  else 2 * COIN

/-- The subsidy never exceeds the premine and is never negative. -/
theorem getBlockValue_bounds (nHeight : Int) :
    0 ≤ params.getBlockValue nHeight ∧ params.getBlockValue nHeight ≤ 200000 * COIN := by
  have step : ∀ {c : Prop} [Decidable c] {a b : CAmount}, (0 ≤ a ∧ a ≤ 200000 * COIN) →
      (0 ≤ b ∧ b ≤ 200000 * COIN) →
        0 ≤ (if c then a else b) ∧ (if c then a else b) ≤ 200000 * COIN := by
    intro c _ a b first second
    split
    · exact first
    · exact second
  unfold getBlockValue
  repeat' apply step
  all_goals decide

end CChainParams

end GiantCore
