import GiantCore.Chain.Params
import GiantCore.Primitives.Block
import Mathlib.Data.List.Sort

/-! # What a node sees

The globals that the masternode, budget and validation code reads and does not
change: the chain tip and the block index, the clocks, the sync state, the
sporks, and the cryptography and the lock attempts that the modelled functions
call.
-/

namespace GiantCore

/-- A serialized public key. -/
abbrev CPubKey := List UInt8

/-- The sporks that the modelled functions read, with their numbers. -/
inductive SporkId where
  /-- `SPORK_2_SWIFTTX`. -/
  | swiftTx
  /-- `SPORK_3_SWIFTTX_BLOCK_FILTERING`. -/
  | swiftTxBlockFiltering
  /-- `SPORK_5_MAX_VALUE`. -/
  | maxValue
  /-- `SPORK_8_MASTERNODE_PAYMENT_ENFORCEMENT`. -/
  | masternodePaymentEnforcement
  /-- `SPORK_9_MASTERNODE_BUDGET_ENFORCEMENT`. -/
  | masternodeBudgetEnforcement
  /-- `SPORK_13_ENABLE_SUPERBLOCKS`. -/
  | enableSuperblocks
  /-- `SPORK_16_ZEROCOIN_MAINTENANCE_MODE`. -/
  | zerocoinMaintenanceMode
  deriving DecidableEq, Repr

/-- The value of a spork that no message has set. -/
def SporkId.default : SporkId → Int
  | .swiftTx => 1672444800
  | .swiftTxBlockFiltering => 1424217600
  | .maxValue => 1000
  | .masternodePaymentEnforcement => 1512864000
  | .masternodeBudgetEnforcement => 1
  | .enableSuperblocks => 1
  | .zerocoinMaintenanceMode => 4070908800

structure NodeContext where
  params : CChainParams
  /-- `chainActive.Tip()`. -/
  tip : Option CBlockIndex
  mapBlockIndex : Uint256 → Option CBlockIndex
  /-- `GetBlockHash` of `masternode.cpp`: the hash of the block below a height,
  if the node knows it. -/
  getBlockHash : Int → Option Uint256
  /-- `GetTime()`. -/
  time : Int
  /-- `GetAdjustedTime()`. -/
  adjustedTime : Int
  shutdownRequested : Bool
  /-- `masternodeSync.IsSynced()`. -/
  isSynced : Bool
  /-- `masternodeSync.IsBlockchainSynced()`. -/
  isBlockchainSynced : Bool
  isInitialBlockDownload : Bool
  fLiteMode : Bool
  /-- The outcome of `TRY_LOCK(cs_main)`. -/
  lockMain : Bool
  /-- The values that spork messages have set. -/
  mapSporksActive : SporkId → Option Int
  /-- `GetScriptForDestination` of the key's address. -/
  scriptForKey : CPubKey → CScript
  /-- Whether `GetInputCheckingTx` makes a transaction for the collateral. -/
  hasInputCheckingTx : CTxIn → Bool
  /-- `AcceptableInputs` of that transaction. -/
  acceptableInputs : CTxIn → Bool
  /-- The double hash of one word and of two words. -/
  hashOne : Uint256 → Uint256
  hashTwo : Uint256 → Uint256 → Uint256
  /-- `std::sort` by descending score; ties come in any order. -/
  sortByScore : List (Int × CTxIn) → List (Int × CTxIn)
  /-- `COutPoint::ToStringShort`. -/
  outpointText : COutPoint → String
  /-- `CScript::ToString`. -/
  scriptText : CScript → String
  /-- `obfuScationSigner.VerifyMessage`. -/
  verifyMessage : CPubKey → List UInt8 → String → Bool
  /-- The transactions that hold a lock on an input (`mapLockedInputs`). -/
  mapLockedInputs : COutPoint → Option Uint256
  /-- `BuildMerkleTree`: the root, and whether the tree repeats transactions. -/
  buildMerkleTree : List CTransaction → Uint256 × Bool
  /-- `GetSerializeSize` on the network. -/
  getSerializeSize : CBlock → Nat

namespace NodeContext

variable (node : NodeContext)

/-- `chainActive.Height()`, which is -1 without a tip. -/
def height : Int := node.tip.elim (-1) CBlockIndex.nHeight

def getSporkValue (spork : SporkId) : Int := (node.mapSporksActive spork).getD spork.default

def isSporkActive (spork : SporkId) : Bool :=
  if node.getSporkValue spork = -1 then false else node.getSporkValue spork < node.time

/-- `MIN_PEER_PROTO_VERSION_BEFORE_ENFORCEMENT`. -/
def minPeerProtoVersionBeforeEnforcement : Int := 70718

/-- `MIN_PEER_PROTO_VERSION_AFTER_ENFORCEMENT`. -/
def minPeerProtoVersionAfterEnforcement : Int := 70720

/-- `ActiveProtocol`. -/
def activeProtocol : Int :=
  if node.params.isTiersMasternodeEnabled node.height &&
      node.params.deprecatedCollateralPrice node.height == 0 then
    minPeerProtoVersionAfterEnforcement
  else minPeerProtoVersionBeforeEnforcement

theorem activeProtocol_ge : 70718 ≤ node.activeProtocol := by
  unfold activeProtocol
  split <;> decide

/-- The height of a block, from its predecessor on the tip or in the block index,
as `CheckBlock` and `IsBlockValueValid` look it up; 0 when it is not found. -/
def blockHeight (block : CBlock) : Int :=
  match node.tip with
  | none => 0
  | some tip =>
      if tip.hash = block.hashPrevBlock then tip.nHeight + 1
      else
        match node.mapBlockIndex block.hashPrevBlock with
        | some index => index.nHeight + 1
        | none => 0

/-- A synced node of the main network at a tip whose block hash is its height,
with plain stand-ins for hashes, signatures and scripts. Concrete examples are
about this node. -/
def mainNode (tipHeight : Int) : NodeContext where
  params := CChainParams.main
  tip := some ⟨BitVec.ofInt 256 tipHeight, tipHeight⟩
  mapBlockIndex _ := none
  getBlockHash height :=
    if 0 ≤ height ∧ height ≤ tipHeight + 1 then some (BitVec.ofInt 256 (height - 1)) else none
  time := 1600000000
  adjustedTime := 1600000000
  shutdownRequested := false
  isSynced := true
  isBlockchainSynced := true
  isInitialBlockDownload := false
  fLiteMode := false
  lockMain := true
  mapSporksActive _ := none
  scriptForKey key := 0x76 :: key
  hasInputCheckingTx _ := true
  acceptableInputs _ := true
  hashOne word := word + 1
  hashTwo first second := first * 31 + second
  sortByScore scores := scores.insertionSort fun first second => second.1 ≤ first.1
  outpointText out := toString out.hash.toNat ++ "-" ++ toString out.n.toNat
  scriptText script := toString (script.map UInt8.toNat)
  verifyMessage key vchSig _ := vchSig == key
  mapLockedInputs _ := none
  buildMerkleTree vtx := ((vtx.map CTransaction.hash).sum, false)
  getSerializeSize block := 80 + 250 * block.vtx.length

end NodeContext

end GiantCore
