import GiantCore.Chain.Node
import GiantCore.Foundation.RunningMax

/-! # Masternodes

`CMasternode` of `masternode.cpp` with its tiers, and the parts of
`CMasternodeMan` that the payments and the budget call. Most queries call
`Check` on the entries they visit, so they return the list with the entries as
`Check` left them.

The level of a masternode is a `Level` here, while the parameters that the
source declares as `int level` are integers, since one caller passes a number
that is no level.
-/

namespace GiantCore

/-- The tier of a masternode. -/
inductive Level where
  | unknown
  | masternode
  | supernode
  | deprecated
  deriving DecidableEq, Repr

namespace Level

/-- The value of the enumeration. -/
def toInt : Level → Int
  | unknown => 0
  | masternode => 1
  | supernode => 2
  | deprecated => 3

theorem toInt_lt (level : Level) : level.toInt < 4 := by
  cases level <;> decide

theorem toInt_inj {first second : Level} : first.toInt = second.toInt ↔ first = second := by
  cases first <;> cases second <;> decide

/-- All levels, from the lowest value. -/
def all : List Level := [unknown, masternode, supernode, deprecated]

theorem mem_all (level : Level) : level ∈ all := by
  cases level <;> decide

end Level

/-- `CMasternode::state`. -/
inductive MasternodeState where
  | preEnabled
  | enabled
  | expired
  | outpointSpent
  | remove
  | watchdogExpired
  | poseBan
  | vinSpent
  | posError
  deriving DecidableEq, Repr

/-- A masternode's ping. -/
structure CMasternodePing where
  vin : CTxIn := { prevout := COutPoint.null }
  blockHash : Uint256 := 0
  sigTime : Int := 0
  vchSig : List UInt8 := []
  deriving DecidableEq, Repr

/-- A network address. -/
structure CService where
  ip : List UInt8
  port : UInt16
  deriving DecidableEq, Repr

/-- A masternode, with the fields that the modelled functions read. -/
structure CMasternode where
  vin : CTxIn
  pubKeyCollateralAddress : CPubKey
  pubKeyMasternode : CPubKey
  activeState : MasternodeState
  sigTime : Int
  lastTimeChecked : Int
  unitTest : Bool
  protocolVersion : Int
  lastPing : CMasternodePing
  nCollateralPrice : CAmount
  addr : CService := ⟨[], 0⟩
  sig : List UInt8 := []
  deriving DecidableEq, Repr

namespace NodeContext

variable (node : NodeContext)

/-- `CMasternode::GetLevel` of a collateral value at a height. -/
def getLevelAt (nInValue : CAmount) (nBlockHeight : Int) : Level :=
  if 0 ≤ nBlockHeight then
    if nInValue = node.params.masternodeCollateralPrice nBlockHeight * COIN then .masternode
    else if nInValue = node.params.supernodeCollateralPrice nBlockHeight * COIN then .supernode
    else if nInValue = node.params.deprecatedCollateralPrice nBlockHeight * COIN then .deprecated
    else .unknown
  else .unknown

/-- `CMasternode::begin`. -/
def beginLevel (height : Int) : Level :=
  if node.params.isTiersMasternodeEnabled height then .masternode else .deprecated

/-- `CMasternode::end`. -/
def endLevel (height : Int) : Level :=
  if node.params.isTiersMasternodeEnabled height then .supernode else .deprecated

/-- The levels from `begin` to `end`, over which the payment loops run. -/
def levels (height : Int) : List Level :=
  Level.all.filter fun level =>
    (node.beginLevel height).toInt ≤ level.toInt && level.toInt ≤ (node.endLevel height).toInt

/-- `GetMasternodePayment`. -/
def getMasternodePayment (level : Level) (blockValue : CAmount) : CAmount :=
  match level with
  | .masternode => node.params.masternodeReward blockValue
  | .supernode => node.params.supernodeReward blockValue
  | .deprecated => node.params.deprecatedReward blockValue
  | .unknown => 0

end NodeContext

namespace CMasternode

/-- `MASTERNODE_CHECK_SECONDS`. -/
def checkSeconds : Int := 5

/-- `MASTERNODE_MIN_MNP_SECONDS`. -/
def minMnpSeconds : Int := 10 * 60

/-- `MASTERNODE_EXPIRATION_SECONDS`. -/
def expirationSeconds : Int := 120 * 60

/-- `MASTERNODE_REMOVAL_SECONDS`. -/
def removalSeconds : Int := 130 * 60

variable (node : NodeContext) (mn : CMasternode)

def getLevel : Level := node.getLevelAt mn.nCollateralPrice node.height

def isEnabled : Bool := mn.activeState == .enabled

/-- `IsPingedWithin`: pings are compared by input and block. -/
def isPingedWithin (seconds : Int) : Bool :=
  if mn.lastPing.vin = ({} : CMasternodePing).vin ∧
      mn.lastPing.blockHash = ({} : CMasternodePing).blockHash then false
  else node.adjustedTime - mn.lastPing.sigTime < seconds

/-- The state that `Check` arrives at. -/
def checkedState : MasternodeState :=
  -- once spent, stop doing the checks
  if mn.activeState = .vinSpent then .vinSpent
  else if !mn.isPingedWithin node removalSeconds then .remove
  else if !mn.isPingedWithin node expirationSeconds then .expired
  else if mn.lastPing.sigTime - mn.sigTime < minMnpSeconds then .preEnabled
  else if mn.unitTest then .enabled
  else if !node.hasInputCheckingTx mn.vin then .vinSpent
  -- the lock is only tried, and without it the state stays
  else if !node.lockMain then mn.activeState
  else if !node.acceptableInputs mn.vin then .vinSpent
  else .enabled

/-- `Check` without force: recompute the state, at most every few seconds. -/
def check : CMasternode :=
  if node.shutdownRequested then mn
  else if node.time - mn.lastTimeChecked < checkSeconds then mn
  else { mn with lastTimeChecked := node.time, activeState := mn.checkedState node }

/-- `CalculateScore`; the source ignores its first argument. -/
def calculateScore (nBlockHeight : Int) : Uint256 :=
  match node.tip, node.getBlockHash nBlockHeight with
  | some _, some hash =>
      let aux := mn.vin.prevout.hash + BitVec.ofNat 256 mn.vin.prevout.n.toNat
      let hash2 := node.hashOne hash
      let hash3 := node.hashTwo hash aux
      if hash3 > hash2 then hash3 - hash2 else hash2 - hash3
  | _, _ => 0

/-- The script that pays the masternode. -/
def payee : CScript := node.scriptForKey mn.pubKeyCollateralAddress

end CMasternode

/-- The masternode list, `mnodeman`. -/
structure CMasternodeMan where
  vMasternodes : List CMasternode
  deriving DecidableEq, Repr

namespace CMasternodeMan

/-- `MN_WINNER_MINIMUM_AGE`. -/
def winnerMinimumAge : Int := 8000

variable (node : NodeContext) (mnodeman : CMasternodeMan)

/-- The list after `Check` on every entry. -/
def checkAll : CMasternodeMan := ⟨mnodeman.vMasternodes.map (CMasternode.check node)⟩

/-- `CountEnabled`. The level is any integer, and -1 stands for the protocol
version that payments require. -/
def countEnabled (level protocolVersion : Int) : CMasternodeMan × Nat :=
  let protocolVersion := if protocolVersion = -1 then node.activeProtocol else protocolVersion
  let checked := mnodeman.checkAll node
  (checked, checked.vMasternodes.countP fun mn =>
    (level == Level.unknown.toInt || level == (mn.getLevel node).toInt) &&
      (decide (protocolVersion ≤ mn.protocolVersion) && mn.isEnabled))

/-- `Find` by payee script. -/
def findPayee (payee : CScript) : Option CMasternode :=
  mnodeman.vMasternodes.find? fun mn => mn.payee node == payee

/-- `Find` by collateral input. -/
def find (vin : CTxIn) : Option CMasternode :=
  mnodeman.vMasternodes.find? fun mn => mn.vin.prevout == vin.prevout

/-- `GetCurrentMasterNode`: the enabled masternode of a level with the highest
score. -/
def getCurrentMasterNode (level : Int) (nBlockHeight minProtocol : Int) :
    CMasternodeMan × Option CMasternode :=
  let checked := mnodeman.checkAll node
  let eligible := fun mn : CMasternode =>
    (level == Level.unknown.toInt || (mn.getLevel node).toInt == level) &&
      (decide (minProtocol ≤ mn.protocolVersion) && mn.isEnabled)
  let score := fun mn : CMasternode => ((mn.calculateScore node nBlockHeight).getCompact : Int)
  (checked, (Foundation.RunningMax.scan eligible score (0, none) checked.vMasternodes).2)

/-- The masternodes that `GetMasternodeRank` scores. Only those that pass the
age test are checked. -/
def rankEntry (minProtocol : Int) (mn : CMasternode) : CMasternode × Bool :=
  if mn.protocolVersion < minProtocol then (mn, false)
  else if node.isSporkActive .masternodePaymentEnforcement &&
      node.adjustedTime - mn.sigTime < winnerMinimumAge then (mn, false)
  else (mn.check node, (mn.check node).isEnabled)

/-- `GetMasternodeRank` of active masternodes: the position of a masternode by
score, -1 if the block is unknown or the masternode is not ranked. -/
def getMasternodeRank (vin : CTxIn) (nBlockHeight minProtocol : Int) : CMasternodeMan × Int :=
  match node.getBlockHash nBlockHeight with
  | none => (mnodeman, -1)
  | some _ =>
      let entries := mnodeman.vMasternodes.map (rankEntry node minProtocol)
      let scores := (entries.filter Prod.snd).map fun entry =>
        (((entry.1.calculateScore node nBlockHeight).getCompact : Int), entry.1.vin)
      let rank := (node.sortByScore scores).findIdx? fun score => score.2.prevout == vin.prevout
      (⟨entries.map Prod.fst⟩, rank.elim (-1) fun position => position + 1)

end CMasternodeMan

/-! ## What the queries return -/

namespace CMasternode

/-- A second check at the same time changes nothing. -/
@[simp] theorem check_check (node : NodeContext) (mn : CMasternode) :
    (mn.check node).check node = mn.check node := by
  unfold check
  split
  · rfl
  · split
    · rfl
    · simp [checkSeconds]

section Check

variable (node : NodeContext) (mn : CMasternode)

/-- `Check` touches the state and the time of the check only. -/
theorem check_eq : ∃ activeState lastTimeChecked,
    mn.check node = { mn with activeState, lastTimeChecked } := by
  unfold check
  split
  · exact ⟨_, _, rfl⟩
  · split
    · exact ⟨_, _, rfl⟩
    · exact ⟨_, _, rfl⟩

@[simp] theorem vin_check : (mn.check node).vin = mn.vin := by
  obtain ⟨_, _, same⟩ := check_eq node mn
  rw [same]

@[simp] theorem pubKeyMasternode_check :
    (mn.check node).pubKeyMasternode = mn.pubKeyMasternode := by
  obtain ⟨_, _, same⟩ := check_eq node mn
  rw [same]

@[simp] theorem payee_check : (mn.check node).payee node = mn.payee node := by
  obtain ⟨_, _, same⟩ := check_eq node mn
  rw [same]
  rfl

@[simp] theorem getLevel_check : (mn.check node).getLevel node = mn.getLevel node := by
  obtain ⟨_, _, same⟩ := check_eq node mn
  rw [same]
  rfl

end Check

end CMasternode

namespace CMasternodeMan

variable (node : NodeContext) (mnodeman : CMasternodeMan)

@[simp] theorem checkAll_checkAll : (mnodeman.checkAll node).checkAll node =
    mnodeman.checkAll node := by
  simp [checkAll]

@[simp] theorem countEnabled_checkAll (level protocolVersion : Int) :
    (mnodeman.checkAll node).countEnabled node level protocolVersion =
      mnodeman.countEnabled node level protocolVersion := by
  simp only [countEnabled, checkAll_checkAll]

@[simp] theorem fst_countEnabled (level protocolVersion : Int) :
    (mnodeman.countEnabled node level protocolVersion).1 = mnodeman.checkAll node := by
  simp only [countEnabled]

theorem find_checkAll (vin : CTxIn) :
    (mnodeman.checkAll node).find vin = (mnodeman.find vin).map (CMasternode.check node) := by
  have same : (fun mn : CMasternode => mn.vin.prevout == vin.prevout) ∘ CMasternode.check node =
      fun mn => mn.vin.prevout == vin.prevout := by
    funext mn
    rw [Function.comp_apply, CMasternode.vin_check]
  rw [find, find, checkAll, List.find?_map, same]

theorem findPayee_checkAll (payee : CScript) :
    (mnodeman.checkAll node).findPayee node payee =
      (mnodeman.findPayee node payee).map (CMasternode.check node) := by
  have same : (fun mn : CMasternode => mn.payee node == payee) ∘ CMasternode.check node =
      fun mn => mn.payee node == payee := by
    funext mn
    rw [Function.comp_apply, CMasternode.payee_check]
  rw [findPayee, findPayee, checkAll, List.find?_map, same]

/-- Ranking checked masternodes leaves them as they are. -/
theorem getMasternodeRank_checkAll (vin : CTxIn) (nBlockHeight minProtocol : Int) :
    ((mnodeman.checkAll node).getMasternodeRank node vin nBlockHeight minProtocol).1 =
      mnodeman.checkAll node := by
  have entry : ∀ mn : CMasternode,
      (rankEntry node minProtocol (mn.check node)).1 = mn.check node := by
    intro mn
    unfold rankEntry
    split
    · rfl
    · split
      · rfl
      · exact mn.check_check node
  unfold getMasternodeRank
  split
  · rfl
  · simp only [checkAll, List.map_map]
    congr 1
    exact List.map_congr_left fun mn _ => entry mn

/-- A number that is no level counts no masternode at all. -/
theorem countEnabled_of_no_level {level : Int} (protocolVersion : Int) (large : 4 ≤ level) :
    (mnodeman.countEnabled node level protocolVersion).2 = 0 := by
  simp only [countEnabled, List.countP_eq_zero, Bool.and_eq_true, Bool.or_eq_true, beq_iff_eq]
  rintro mn - ⟨unrestricted | same, -⟩
  · rw [unrestricted] at large
    exact absurd large (by decide)
  · have bound := (mn.getLevel node).toInt_lt
    omega

/-- The active protocol version is no level. -/
theorem countEnabled_activeProtocol (protocolVersion : Int) :
    (mnodeman.countEnabled node node.activeProtocol protocolVersion).2 = 0 := by
  have large := node.activeProtocol_ge
  exact countEnabled_of_no_level node mnodeman protocolVersion (by omega)

end CMasternodeMan

/-- An enabled masternode that was checked just now. -/
def CMasternode.enabledNode (index : Nat) (nCollateralPrice : CAmount) : CMasternode where
  vin := { prevout := ⟨BitVec.ofNat 256 (1000 + index), 0⟩ }
  pubKeyCollateralAddress := [UInt8.ofNat index]
  pubKeyMasternode := [UInt8.ofNat index, 1]
  activeState := .enabled
  sigTime := 1500000000
  lastTimeChecked := 1600000000
  unitTest := false
  protocolVersion := 70720
  lastPing := { blockHash := 1, sigTime := 1600000000 }
  nCollateralPrice

end GiantCore
