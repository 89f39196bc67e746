import GiantCore.Masternode.Masternode

/-! # Masternode announcements and pings

The handlers of `mnb` and `mnp` in `CMasternodeMan::ProcessMessage`. An
announcement enters a masternode into the list, or updates the entry it has; a ping
renews the last ping of an entry. Both mark a message as seen as soon as they read it,
by a hash that does not cover the signature, and check the signature later.

`announces` and `refreshes` say when a message that is new changes the list.
-/

namespace GiantCore

/-- A masternode announcement. -/
structure CMasternodeBroadcast where
  vin : CTxIn
  addr : CService
  pubKeyCollateralAddress : CPubKey
  pubKeyMasternode : CPubKey
  sig : List UInt8
  sigTime : Int
  protocolVersion : Int
  lastPing : CMasternodePing
  deriving DecidableEq, Repr

/-- The hashes by which messages are remembered. -/
structure MasternodeHashes where
  /-- The hash of the time and the collateral key of an announcement. -/
  broadcast : Int → CPubKey → Uint256
  /-- The hash of the input and the time of a ping. -/
  ping : CTxIn → Int → Uint256

/-- What a handler reads and does not change. -/
structure MasternodeEnv where
  node : NodeContext
  /-- `CTxIn::ToString`. -/
  txinText : CTxIn → String
  /-- `uint256::ToString`. -/
  hashText : Uint256 → String
  /-- `CService::ToString`. -/
  addrText : CService → String
  /-- The bytes of a key as a string. -/
  keyText : CPubKey → String
  /-- `IsVinAssociatedWithPubkey`. -/
  isVinAssociatedWithPubkey : CTxIn → CPubKey → Bool
  /-- The input and the key of the node's own masternode, if it runs one. -/
  activeMasternode : Option (CTxIn × CPubKey)
  /-- `GetInputAge`. -/
  getInputAge : CTxIn → Int
  /-- The time of the block at which an input had enough confirmations, if the block of
  the input is in the index. -/
  confirmationTime : CTxIn → Option Int
  /-- The value of the output that an input spends. -/
  collateralValue : CTxIn → CAmount

/-- The masternode list, with the messages that have been seen. -/
structure MasternodeTables where
  mnodeman : CMasternodeMan
  mapSeenMasternodeBroadcast : Std.ExtTreeMap Uint256 CMasternodeBroadcast := ∅
  mapSeenMasternodePing : Std.ExtTreeMap Uint256 CMasternodePing := ∅

namespace CMasternode

/-- `MASTERNODE_MIN_CONFIRMATIONS`. -/
def minConfirmations : Int := 15

/-- `MASTERNODE_MIN_MNB_SECONDS`. -/
def minMnbSeconds : Int := 5 * 60

variable (node : NodeContext) (mn : CMasternode)

/-- `IsBroadcastedWithin`. -/
def isBroadcastedWithin (seconds : Int) : Bool := node.adjustedTime - mn.sigTime < seconds

/-- `IsPingedWithin` at a given time, where -1 stands for the adjusted time. -/
def isPingedWithinAt (seconds now : Int) : Bool :=
  if mn.lastPing.vin = ({} : CMasternodePing).vin ∧
      mn.lastPing.blockHash = ({} : CMasternodePing).blockHash then false
  else (if now = -1 then node.adjustedTime else now) - mn.lastPing.sigTime < seconds

@[simp] theorem sigTime_check : (mn.check node).sigTime = mn.sigTime := by
  obtain ⟨_, _, same⟩ := check_eq node mn
  rw [same]

/-- `Check` with force. -/
def checkForced : CMasternode :=
  if node.shutdownRequested then mn
  else { mn with lastTimeChecked := node.time, activeState := mn.checkedState node }

end CMasternode

namespace CMasternodeMan

/-- Change the entry that `Find` finds. -/
def update (mnodeman : CMasternodeMan) (vin : CTxIn) (change : CMasternode → CMasternode) :
    CMasternodeMan :=
  ⟨mnodeman.vMasternodes.replaceF fun mn =>
    if mn.vin.prevout == vin.prevout then some (change mn) else none⟩

/-- `Remove`: the first entry with this input. -/
def remove (mnodeman : CMasternodeMan) (vin : CTxIn) : CMasternodeMan :=
  ⟨mnodeman.vMasternodes.eraseP fun mn => mn.vin == vin⟩

/-- `Add`. -/
def add (mnodeman : CMasternodeMan) (mn : CMasternode) : CMasternodeMan :=
  if !mn.isEnabled then mnodeman
  else
    match mnodeman.find mn.vin with
    | none => ⟨mnodeman.vMasternodes ++ [mn]⟩
    | some _ => mnodeman

end CMasternodeMan

namespace CMasternodePing

variable (hashes : MasternodeHashes) (env : MasternodeEnv) (ping : CMasternodePing)

def getHash : Uint256 := hashes.ping ping.vin ping.sigTime

/-- Pings are compared by input and block. -/
def isDefault : Bool := ping.vin == ({} : CMasternodePing).vin && ping.blockHash == 0

/-- The text that the masternode signs. -/
def strMessage : String :=
  env.txinText ping.vin ++ env.hashText ping.blockHash ++ toString ping.sigTime

/-- `VerifySignature`. -/
def verifySignature (pubKeyMasternode : CPubKey) : Bool :=
  env.node.verifyMessage pubKeyMasternode ping.vchSig (ping.strMessage env)

/-- The ping is dated within an hour of the adjusted time. -/
def isTimely : Bool :=
  !(ping.sigTime > env.node.adjustedTime + 60 * 60) &&
    !(ping.sigTime ≤ env.node.adjustedTime - 60 * 60)

/-- `CheckAndUpdate` when only the time is to be checked. -/
def checkSigTime (mnodeman : CMasternodeMan) : Bool :=
  ping.isTimely env &&
    (mnodeman.find ping.vin).all fun pmn => ping.verifySignature env pmn.pubKeyMasternode

/-- The block of the ping is known and at most 24 blocks below the tip. -/
def isBlockRecent : Bool :=
  (env.node.mapBlockIndex ping.blockHash).any fun index =>
    !(index.nHeight < env.node.height - 24)

/-- The entry that a ping is accepted for, up to the checks of signature and block. -/
def isDueFor (fRequireEnabled : Bool) (pmn : CMasternode) : Bool :=
  !(pmn.protocolVersion < env.node.activeProtocol) &&
    !(fRequireEnabled && !pmn.isEnabled) &&
      !pmn.isPingedWithinAt env.node (CMasternode.minMnpSeconds - 60) ping.sigTime

/-- The entry with a new ping. -/
def renew (pmn : CMasternode) : CMasternode := { pmn with lastPing := ping }.checkForced env.node

/-- `CheckAndUpdate`, and whether it returns true. -/
def checkAndUpdate (state : MasternodeTables) (fRequireEnabled : Bool) : MasternodeTables × Bool :=
  if !ping.isTimely env then (state, false)
  else
    match state.mnodeman.find ping.vin with
    | none => (state, false)
    | some pmn =>
        if !ping.isDueFor env fRequireEnabled pmn then (state, false)
        else if !ping.verifySignature env pmn.pubKeyMasternode then (state, false)
        else if !ping.isBlockRecent env then (state, false)
        else
          let hash := hashes.broadcast pmn.sigTime pmn.pubKeyCollateralAddress
          ({ state with
            mnodeman := state.mnodeman.update ping.vin (ping.renew env)
            mapSeenMasternodeBroadcast := state.mapSeenMasternodeBroadcast.modify hash
              fun mnb => { mnb with lastPing := ping } }, (ping.renew env pmn).isEnabled)

end CMasternodePing

namespace CMasternodeBroadcast

variable (hashes : MasternodeHashes) (env : MasternodeEnv) (mnb : CMasternodeBroadcast)

def getHash : Uint256 := hashes.broadcast mnb.sigTime mnb.pubKeyCollateralAddress

/-- `GetStrMessage`. -/
def getStrMessage : String :=
  env.addrText mnb.addr ++ toString mnb.sigTime ++ env.keyText mnb.pubKeyCollateralAddress ++
    env.keyText mnb.pubKeyMasternode ++ toString mnb.protocolVersion

/-- The signature of the announcement. -/
def verifySignature : Bool :=
  env.node.verifyMessage mnb.pubKeyCollateralAddress mnb.sig (mnb.getStrMessage env)

/-- The fields that `UpdateFromNewBroadcast` takes over. -/
def updateEntry (mn : CMasternode) : CMasternode :=
  { mn with
    pubKeyMasternode := mnb.pubKeyMasternode
    pubKeyCollateralAddress := mnb.pubKeyCollateralAddress
    sigTime := mnb.sigTime
    sig := mnb.sig
    protocolVersion := mnb.protocolVersion
    addr := mnb.addr
    lastTimeChecked := 0 }

/-- `UpdateFromNewBroadcast` of the entry for the input, which is older. Checking the
ping of the announcement may update an entry already. -/
def updateFromNewBroadcast (state : MasternodeTables) : MasternodeTables :=
  let state := { state with mnodeman := state.mnodeman.update mnb.vin mnb.updateEntry }
  let (state, pinged) :=
    if mnb.lastPing.isDefault then (state, true)
    else mnb.lastPing.checkAndUpdate hashes env state false
  if pinged then
    { state with
      mnodeman := state.mnodeman.update mnb.vin fun mn => { mn with lastPing := mnb.lastPing }
      mapSeenMasternodePing := state.mapSeenMasternodePing.insertIfNew
        (mnb.lastPing.getHash hashes) mnb.lastPing }
  else state

/-- The tests of `CheckAndUpdate` that do not depend on an entry for the input. -/
def isWellFormed (mnodeman : CMasternodeMan) : Bool :=
  !(mnb.sigTime > env.node.adjustedTime + 60 * 60) &&
    !(mnb.lastPing.isDefault || !mnb.lastPing.checkSigTime env mnodeman) &&
    !(mnb.protocolVersion < env.node.activeProtocol) &&
    (env.node.scriptForKey mnb.pubKeyCollateralAddress).length == 25 &&
    (env.node.scriptForKey mnb.pubKeyMasternode).length == 25 &&
    mnb.vin.scriptSig.isEmpty &&
    mnb.verifySignature env &&
    !(env.node.params.networkID == .main && mnb.addr.port != env.node.params.nDefaultPort)

/-- The announcement updates an entry. -/
def updates (pmn : CMasternode) : Bool :=
  pmn.pubKeyCollateralAddress == mnb.pubKeyCollateralAddress &&
    !pmn.isBroadcastedWithin env.node CMasternode.minMnbSeconds

/-- `CheckAndUpdate`, and whether it returns true. -/
def checkAndUpdate (state : MasternodeTables) : MasternodeTables × Bool :=
  if !mnb.isWellFormed env state.mnodeman then (state, false)
  else
    match state.mnodeman.find mnb.vin with
    | none => (state, true)
    | some pmn =>
        if pmn.sigTime ≥ mnb.sigTime then (state, false)
        else if !pmn.isEnabled then (state, true)
        else if mnb.updates env pmn then
          let state := mnb.updateFromNewBroadcast hashes env state
          ({ state with mnodeman := state.mnodeman.update mnb.vin (CMasternode.check env.node) },
            true)
        else (state, true)

/-- The announcement is that of the node's own masternode. -/
def isOwn : Bool :=
  env.activeMasternode.any fun own =>
    mnb.vin.prevout == own.1.prevout && mnb.pubKeyMasternode == own.2

/-- `CMasternode(mnb)`. -/
def toMasternode : CMasternode where
  vin := mnb.vin
  pubKeyCollateralAddress := mnb.pubKeyCollateralAddress
  pubKeyMasternode := mnb.pubKeyMasternode
  activeState := .enabled
  sigTime := mnb.sigTime
  lastTimeChecked := 0
  unitTest := false
  protocolVersion := mnb.protocolVersion
  lastPing := mnb.lastPing
  nCollateralPrice := env.collateralValue mnb.vin
  addr := mnb.addr
  sig := mnb.sig

/-- The last part of `CheckInputsAndAdd`, for an input that has no entry. -/
def addNew (state : MasternodeTables) : MasternodeTables :=
  let forgotten := { state with
    mapSeenMasternodeBroadcast := state.mapSeenMasternodeBroadcast.erase (mnb.getHash hashes) }
  -- not the fault of the announcement, let it be checked again later
  if !env.node.lockMain then forgotten
  else if !env.node.acceptableInputs mnb.vin then state
  -- maybe we miss few blocks, let it be checked again later
  else if env.getInputAge mnb.vin < CMasternode.minConfirmations then forgotten
  else if (env.confirmationTime mnb.vin).any (· > mnb.sigTime) then state
  else { state with mnodeman := state.mnodeman.add (mnb.toMasternode env) }

/-- `CheckInputsAndAdd`. -/
def checkInputsAndAdd (state : MasternodeTables) : MasternodeTables :=
  if mnb.isOwn env then state
  else if mnb.lastPing.isDefault || !mnb.lastPing.checkSigTime env state.mnodeman then state
  else
    match state.mnodeman.find mnb.vin with
    | none => mnb.addNew hashes env state
    | some pmn =>
        if pmn.isEnabled then state
        else mnb.addNew hashes env { state with mnodeman := state.mnodeman.remove pmn.vin }

end CMasternodeBroadcast

namespace MasternodeTables

variable (hashes : MasternodeHashes) (env : MasternodeEnv) (state : MasternodeTables)

/-- The tests at the start of `CMasternodeMan::ProcessMessage`. -/
def handles : Bool := !env.node.fLiteMode && env.node.isBlockchainSynced

/-- The `mnb` handler. -/
def processMnb (mnb : CMasternodeBroadcast) : MasternodeTables :=
  if handles env then
    if state.mapSeenMasternodeBroadcast.contains (mnb.getHash hashes) then state
    else
      let state := { state with mapSeenMasternodeBroadcast :=
        state.mapSeenMasternodeBroadcast.insert (mnb.getHash hashes) mnb }
      let (state, accepted) := mnb.checkAndUpdate hashes env state
      if !accepted then state
      else if !env.isVinAssociatedWithPubkey mnb.vin mnb.pubKeyCollateralAddress then state
      else mnb.checkInputsAndAdd hashes env state
  else state

/-- The `mnp` handler. -/
def processMnp (mnp : CMasternodePing) : MasternodeTables :=
  if handles env then
    if state.mapSeenMasternodePing.contains (mnp.getHash hashes) then state
    else
      let state := { state with mapSeenMasternodePing :=
        state.mapSeenMasternodePing.insert (mnp.getHash hashes) mnp }
      (mnp.checkAndUpdate hashes env state true).1
  else state

end MasternodeTables

/-! ## Changes of the list -/

namespace CMasternodeMan

variable (mnodeman : CMasternodeMan) {vin : CTxIn} {change : CMasternode → CMasternode}

theorem length_update :
    (mnodeman.update vin change).vMasternodes.length = mnodeman.vMasternodes.length := by
  simp [update]

/-- The entry that is changed is the one that `Find` finds. -/
theorem find_update (keeps : ∀ mn, (change mn).vin = mn.vin) :
    (mnodeman.update vin change).find vin = (mnodeman.find vin).map change := by
  unfold update find
  induction mnodeman.vMasternodes with
  | nil => rfl
  | cons mn rest ih =>
      simp only [List.replaceF_cons, List.find?_cons]
      cases here : mn.vin.prevout == vin.prevout with
      | true => simp [keeps, here]
      | false => simpa [here] using ih

/-- A change that keeps inputs and times hides from a search for times. -/
theorem sigTime_find_update (keepsVin : ∀ mn, (change mn).vin = mn.vin)
    (keepsTime : ∀ mn, (change mn).sigTime = mn.sigTime) (other : CTxIn) :
    ((mnodeman.update vin change).find other).map CMasternode.sigTime =
      (mnodeman.find other).map CMasternode.sigTime := by
  unfold update find
  induction mnodeman.vMasternodes with
  | nil => rfl
  | cons mn rest ih =>
      simp only [List.replaceF_cons]
      cases here : mn.vin.prevout == vin.prevout with
      | true =>
          simp only [↓reduceIte, List.find?_cons, keepsVin]
          split
          · simp [keepsTime]
          · rfl
      | false =>
          simp only [Bool.false_eq_true, ↓reduceIte, List.find?_cons]
          split
          · rfl
          · exact ih

/-- A change is no change if it leaves the entry as it is. -/
theorem update_eq_self_iff :
    mnodeman.update vin change = mnodeman ↔
      ∀ mn, mnodeman.find vin = some mn → change mn = mn := by
  obtain ⟨vMasternodes⟩ := mnodeman
  simp only [update, find, CMasternodeMan.mk.injEq]
  induction vMasternodes with
  | nil => simp
  | cons mn rest ih =>
      simp only [List.replaceF_cons, List.find?_cons]
      cases here : mn.vin.prevout == vin.prevout with
      | true => simp
      | false => simpa using ih

theorem length_remove {pmn : CMasternode} (found : mnodeman.find vin = some pmn) :
    (mnodeman.remove pmn.vin).vMasternodes.length + 1 = mnodeman.vMasternodes.length := by
  have member := List.mem_of_find?_eq_some found
  have positive := List.length_pos_of_mem member
  rw [remove, List.length_eraseP_of_mem member (by simp)]
  omega

/-- A new entry of an enabled masternode. -/
theorem find_add (mn : CMasternode) (enabled : mn.isEnabled = true)
    (new : mnodeman.find mn.vin = none) :
    (mnodeman.add mn).vMasternodes.length = mnodeman.vMasternodes.length + 1 ∧
      (mnodeman.add mn).find mn.vin = some mn := by
  have added : mnodeman.add mn = ⟨mnodeman.vMasternodes ++ [mn]⟩ := by
    simp [add, enabled, new]
  rw [added]
  refine ⟨by simp, ?_⟩
  unfold find at new ⊢
  rw [List.find?_append, new]
  simp

end CMasternodeMan

/-! ## Pings -/

namespace CMasternodePing

variable (hashes : MasternodeHashes) (env : MasternodeEnv) (ping : CMasternodePing)

/-- The ping is accepted. -/
def accepts (mnodeman : CMasternodeMan) (fRequireEnabled : Bool) : Bool :=
  ping.isTimely env && ((mnodeman.find ping.vin).any fun pmn =>
    ping.isDueFor env fRequireEnabled pmn && ping.verifySignature env pmn.pubKeyMasternode) &&
      ping.isBlockRecent env

theorem vin_renew (pmn : CMasternode) : (ping.renew env pmn).vin = pmn.vin := by
  unfold renew CMasternode.checkForced
  split <;> rfl

theorem sigTime_renew (pmn : CMasternode) : (ping.renew env pmn).sigTime = pmn.sigTime := by
  unfold renew CMasternode.checkForced
  split <;> rfl

/-- What a ping does to the list, and that it marks nothing as seen. -/
theorem checkAndUpdate_eq (state : MasternodeTables) (fRequireEnabled : Bool) :
    (ping.checkAndUpdate hashes env state fRequireEnabled).1.mnodeman =
        (if ping.accepts env state.mnodeman fRequireEnabled then
          state.mnodeman.update ping.vin (ping.renew env) else state.mnodeman) ∧
      (ping.checkAndUpdate hashes env state fRequireEnabled).1.mapSeenMasternodePing =
        state.mapSeenMasternodePing := by
  unfold checkAndUpdate accepts
  cases ping.isTimely env with
  | false => simp
  | true =>
      cases state.mnodeman.find ping.vin with
      | none => simp
      | some pmn =>
          cases due : ping.isDueFor env fRequireEnabled pmn with
          | false => simp [due]
          | true =>
              cases signed : ping.verifySignature env pmn.pubKeyMasternode with
              | false => simp [due, signed]
              | true =>
                  cases ping.isBlockRecent env with
                  | false => simp [due, signed]
                  | true => simp [due, signed]

/-- The ping is one that changes an entry, if it is signed. -/
def refreshes (mnodeman : CMasternodeMan) : Bool :=
  ping.isTimely env && ((mnodeman.find ping.vin).any fun pmn =>
    ping.isDueFor env true pmn && ping.renew env pmn != pmn) && ping.isBlockRecent env

/-- The signature is that of the masternode with this input, if the list has it. -/
def IsSigned (mnodeman : CMasternodeMan) : Prop :=
  ∀ pmn, mnodeman.find ping.vin = some pmn → ping.verifySignature env pmn.pubKeyMasternode = true

end CMasternodePing

namespace MasternodeTables

variable {hashes : MasternodeHashes} {env env' : MasternodeEnv} (state : MasternodeTables)

theorem processMnp_of_seen {mnp : CMasternodePing}
    (seen : state.mapSeenMasternodePing.contains (mnp.getHash hashes) = true) :
    state.processMnp hashes env mnp = state := by
  simp [processMnp, seen]

/-- A new ping that is signed changes the list exactly when it refreshes an entry. -/
theorem mnodeman_processMnp_eq_iff {mnp : CMasternodePing}
    (signed : mnp.IsSigned env state.mnodeman) :
    (state.processMnp hashes env mnp).mnodeman = state.mnodeman ↔
      ¬ (handles env = true ∧
        state.mapSeenMasternodePing.contains (mnp.getHash hashes) = false ∧
        mnp.refreshes env state.mnodeman = true) := by
  unfold processMnp
  cases handled : handles env with
  | false => simp
  | true =>
      cases seen : state.mapSeenMasternodePing.contains (mnp.getHash hashes) with
      | true => simp
      | false =>
          simp only [Bool.false_eq_true, ↓reduceIte, true_and,
            (mnp.checkAndUpdate_eq hashes env _ true).1]
          cases found : state.mnodeman.find mnp.vin with
          | none => simp [CMasternodePing.accepts, CMasternodePing.refreshes, found]
          | some pmn =>
              have unchanged : state.mnodeman.update mnp.vin (mnp.renew env) = state.mnodeman ↔
                  mnp.renew env pmn = pmn := by
                rw [CMasternodeMan.update_eq_self_iff, found]
                simp
              simp only [CMasternodePing.accepts, CMasternodePing.refreshes, found,
                Option.any_some, signed pmn found, Bool.and_true]
              cases mnp.isTimely env with
              | false => simp
              | true =>
                  cases mnp.isDueFor env true pmn with
                  | false => simp
                  | true =>
                      cases mnp.isBlockRecent env with
                      | false => simp
                      | true => simp [unchanged]

/-- A ping with a bad signature leaves the list alone, and is marked if it is handled
and new. -/
theorem processMnp_forged (hashes : MasternodeHashes) (mnp : CMasternodePing)
    (forged : ∀ pmn, state.mnodeman.find mnp.vin = some pmn →
      mnp.verifySignature env' pmn.pubKeyMasternode = false) :
    (state.processMnp hashes env' mnp).mnodeman = state.mnodeman ∧
      (handles env' = true →
        (state.processMnp hashes env' mnp).mapSeenMasternodePing.contains
          (mnp.getHash hashes) = true) ∧
      (handles env' = false → state.processMnp hashes env' mnp = state) := by
  unfold processMnp
  cases handled : handles env' with
  | false => simp
  | true =>
      cases seen : state.mapSeenMasternodePing.contains (mnp.getHash hashes) with
      | true => simp [seen]
      | false =>
          have refused : mnp.accepts env' state.mnodeman true = false := by
            unfold CMasternodePing.accepts
            cases found : state.mnodeman.find mnp.vin with
            | none => simp
            | some pmn => simp [forged pmn found]
          obtain ⟨list, marks⟩ := mnp.checkAndUpdate_eq hashes env' { state with
            mapSeenMasternodePing :=
              state.mapSeenMasternodePing.insert (mnp.getHash hashes) mnp } true
          simp only [refused, Bool.false_eq_true, ↓reduceIte] at list
          simp [list, marks]

/-- **A forged copy shuts out a ping.** If a ping is preceded by a copy with a bad
signature, the list ends up as if it came alone exactly when the copy or the ping is
not handled, the hash was seen before, or the ping refreshes no entry. -/
theorem mnodeman_after_forged_mnp_iff {mnp : CMasternodePing} {vchSig : List UInt8}
    (forged : ∀ pmn, state.mnodeman.find mnp.vin = some pmn →
      CMasternodePing.verifySignature env' { mnp with vchSig } pmn.pubKeyMasternode = false)
    (signed : mnp.IsSigned env state.mnodeman) :
    ((state.processMnp hashes env' { mnp with vchSig }).processMnp hashes env mnp).mnodeman =
        (state.processMnp hashes env mnp).mnodeman ↔
      ¬ (handles env' = true ∧ handles env = true ∧
        state.mapSeenMasternodePing.contains (mnp.getHash hashes) = false ∧
        mnp.refreshes env state.mnodeman = true) := by
  obtain ⟨list, marks, unhandled⟩ := state.processMnp_forged hashes { mnp with vchSig } forged
  cases handled : handles env' with
  | false => simp [unhandled handled]
  | true =>
      have ignored : (state.processMnp hashes env' { mnp with vchSig }).processMnp hashes env mnp =
          state.processMnp hashes env' { mnp with vchSig } :=
        processMnp_of_seen _ (marks handled)
      rw [ignored, list, eq_comm, state.mnodeman_processMnp_eq_iff signed]
      simp

end MasternodeTables

/-! ## Announcements -/

namespace CMasternodeMan

/-- The length of the list and the time of the entry for an input. An announcement that
has an effect shows in them. -/
def stamp (mnodeman : CMasternodeMan) (vin : CTxIn) : Nat × Option Int :=
  (mnodeman.vMasternodes.length, (mnodeman.find vin).map CMasternode.sigTime)

theorem stamp_update (mnodeman : CMasternodeMan) {vin : CTxIn}
    {change : CMasternode → CMasternode} (keepsVin : ∀ mn, (change mn).vin = mn.vin)
    (keepsTime : ∀ mn, (change mn).sigTime = mn.sigTime) (other : CTxIn) :
    (mnodeman.update vin change).stamp other = mnodeman.stamp other := by
  rw [stamp, stamp, length_update, sigTime_find_update _ keepsVin keepsTime]

end CMasternodeMan

namespace CMasternodeBroadcast

variable (hashes : MasternodeHashes) (env : MasternodeEnv) (mnb : CMasternodeBroadcast)

theorem stamp_ping (ping : CMasternodePing) (state : MasternodeTables) (fRequireEnabled : Bool)
    (vin : CTxIn) :
    (ping.checkAndUpdate hashes env state fRequireEnabled).1.mnodeman.stamp vin =
      state.mnodeman.stamp vin := by
  rw [(ping.checkAndUpdate_eq hashes env state fRequireEnabled).1]
  split
  · exact state.mnodeman.stamp_update (ping.vin_renew env) (ping.sigTime_renew env) vin
  · rfl

/-- The time of the entry is that of the announcement. -/
theorem stamp_updateFromNewBroadcast (state : MasternodeTables) {pmn : CMasternode}
    (found : state.mnodeman.find mnb.vin = some pmn) :
    (mnb.updateFromNewBroadcast hashes env state).mnodeman.stamp mnb.vin =
      (state.mnodeman.vMasternodes.length, some mnb.sigTime) := by
  have keeps : ∀ mn, (mnb.updateEntry mn).vin = mn.vin := fun _ => rfl
  have taken : (state.mnodeman.update mnb.vin mnb.updateEntry).stamp mnb.vin =
      (state.mnodeman.vMasternodes.length, some mnb.sigTime) := by
    rw [CMasternodeMan.stamp, CMasternodeMan.length_update, CMasternodeMan.find_update _ keeps,
      found]
    rfl
  -- the new ping leaves inputs and times alone
  have renewed : ∀ mnodeman : CMasternodeMan,
      (mnodeman.update mnb.vin fun mn => { mn with lastPing := mnb.lastPing }).stamp mnb.vin =
        mnodeman.stamp mnb.vin := by
    intro mnodeman
    apply mnodeman.stamp_update
    · intro mn
      rfl
    · intro mn
      rfl
  have pinged := stamp_ping hashes env mnb.lastPing
    { state with mnodeman := state.mnodeman.update mnb.vin mnb.updateEntry } false mnb.vin
  unfold updateFromNewBroadcast
  cases mnb.lastPing.isDefault with
  | true => exact (renewed _).trans taken
  | false =>
      simp only [Bool.false_eq_true, ↓reduceIte]
      split
      · exact (renewed _).trans (pinged.trans taken)
      · exact pinged.trans taken

/-- An input without an entry gets one. -/
def isAddable : Bool :=
  env.node.lockMain && env.node.acceptableInputs mnb.vin &&
    !(env.getInputAge mnb.vin < CMasternode.minConfirmations) &&
      !(env.confirmationTime mnb.vin).any (· > mnb.sigTime)

theorem mnodeman_addNew (state : MasternodeTables) :
    (mnb.addNew hashes env state).mnodeman =
      if mnb.isAddable env then state.mnodeman.add (mnb.toMasternode env)
      else state.mnodeman := by
  unfold addNew isAddable
  cases env.node.lockMain with
  | false => simp
  | true =>
      cases env.node.acceptableInputs mnb.vin with
      | false => simp
      | true =>
          by_cases young : env.getInputAge mnb.vin < CMasternode.minConfirmations
          · simp [young]
          · cases (env.confirmationTime mnb.vin).any (· > mnb.sigTime) with
            | false => simp [young]
            | true => simp [young]

/-- The announcement changes the list, if it is new. -/
def announces (mnodeman : CMasternodeMan) : Bool :=
  mnb.isWellFormed env mnodeman &&
    match mnodeman.find mnb.vin with
    | none =>
        env.isVinAssociatedWithPubkey mnb.vin mnb.pubKeyCollateralAddress && !mnb.isOwn env &&
          mnb.isAddable env
    | some pmn =>
        !(pmn.sigTime ≥ mnb.sigTime) &&
          if pmn.isEnabled then mnb.updates env pmn
          else env.isVinAssociatedWithPubkey mnb.vin mnb.pubKeyCollateralAddress && !mnb.isOwn env

/-- The part of the handler after the announcement has been marked as seen. -/
def handle (state : MasternodeTables) : MasternodeTables :=
  let (state, accepted) := mnb.checkAndUpdate hashes env state
  if !accepted then state
  else if !env.isVinAssociatedWithPubkey mnb.vin mnb.pubKeyCollateralAddress then state
  else mnb.checkInputsAndAdd hashes env state

/-- What `CheckInputsAndAdd` does to a list with an entry for the input. -/
theorem checkInputsAndAdd_of_found (state : MasternodeTables) {pmn : CMasternode}
    (found : state.mnodeman.find mnb.vin = some pmn) :
    let after := (mnb.checkInputsAndAdd hashes env state).mnodeman
    (after = state.mnodeman ∧ ¬ (mnb.isOwn env = false ∧ mnb.lastPing.isDefault = false ∧
        mnb.lastPing.checkSigTime env state.mnodeman = true ∧ pmn.isEnabled = false)) ∨
      after.vMasternodes.length + 1 = state.mnodeman.vMasternodes.length ∨
      after.stamp mnb.vin = (state.mnodeman.vMasternodes.length, some mnb.sigTime) := by
  unfold checkInputsAndAdd
  cases own : mnb.isOwn env with
  | true => simp
  | false =>
      cases default : mnb.lastPing.isDefault with
      | true => simp
      | false =>
          cases timely : mnb.lastPing.checkSigTime env state.mnodeman with
          | false => simp
          | true =>
              cases enabled : pmn.isEnabled with
              | true => simp [found, enabled]
              | false =>
                  right
                  have removed := state.mnodeman.length_remove found
                  simp only [found, enabled, Bool.not_true, Bool.or_self, Bool.false_eq_true,
                    ↓reduceIte, mnodeman_addNew]
                  split
                  · cases other : (state.mnodeman.remove pmn.vin).find mnb.vin with
                    | none =>
                        obtain ⟨length, entry⟩ := (state.mnodeman.remove pmn.vin).find_add
                          (mnb.toMasternode env) rfl other
                        right
                        rw [CMasternodeMan.stamp, length, removed]
                        exact congrArg _ (congrArg (Option.map CMasternode.sigTime) entry)
                    | some duplicate =>
                        left
                        have same : (state.mnodeman.remove pmn.vin).add (mnb.toMasternode env) =
                            state.mnodeman.remove pmn.vin := by
                          have there : (state.mnodeman.remove pmn.vin).find
                            (mnb.toMasternode env).vin = some duplicate := other
                          unfold CMasternodeMan.add
                          rw [there]
                          split <;> rfl
                        rw [same]
                        exact removed
                  · exact Or.inl removed

/-- A list with one entry less, or with the time of the announcement, has changed. -/
theorem ne_of_stamp {before after : CMasternodeMan} {pmn : CMasternode}
    (found : before.find mnb.vin = some pmn) (older : ¬ pmn.sigTime ≥ mnb.sigTime)
    (changed : after.vMasternodes.length + 1 = before.vMasternodes.length ∨
      after.stamp mnb.vin = (before.vMasternodes.length, some mnb.sigTime)) : after ≠ before := by
  rintro rfl
  rcases changed with shorter | stamped
  · omega
  · rw [CMasternodeMan.stamp, found] at stamped
    have same : pmn.sigTime = mnb.sigTime := by simpa using stamped
    omega

theorem checkInputsAndAdd_of_enabled (state : MasternodeTables) {pmn : CMasternode}
    (found : state.mnodeman.find mnb.vin = some pmn) (enabled : pmn.isEnabled = true) :
    mnb.checkInputsAndAdd hashes env state = state := by
  simp [checkInputsAndAdd, found, enabled]

/-- An updated entry does not get its old time back. -/
theorem handle_updated_ne (state : MasternodeTables) {pmn : CMasternode}
    (found : state.mnodeman.find mnb.vin = some pmn) (older : ¬ pmn.sigTime ≥ mnb.sigTime)
    (updated : MasternodeTables)
    (stamped : updated.mnodeman.stamp mnb.vin =
      (state.mnodeman.vMasternodes.length, some mnb.sigTime)) :
    updated.mnodeman ≠ state.mnodeman ∧
      (mnb.checkInputsAndAdd hashes env updated).mnodeman ≠ state.mnodeman := by
  refine ⟨mnb.ne_of_stamp found older (Or.inr stamped), ?_⟩
  have length : updated.mnodeman.vMasternodes.length = state.mnodeman.vMasternodes.length :=
    congrArg Prod.fst stamped
  obtain ⟨entry, here, -⟩ := Option.map_eq_some_iff.mp (congrArg Prod.snd stamped)
  rcases mnb.checkInputsAndAdd_of_found hashes env updated here with ⟨same, -⟩ | changed
  · rw [same]
    exact mnb.ne_of_stamp found older (Or.inr stamped)
  · rw [length] at changed
    exact mnb.ne_of_stamp found older changed

theorem lastPing_of_isWellFormed {list : CMasternodeMan}
    (formed : mnb.isWellFormed env list = true) :
    mnb.lastPing.isDefault = false ∧ mnb.lastPing.checkSigTime env list = true := by
  simp only [isWellFormed, Bool.and_eq_true, Bool.not_eq_true', Bool.or_eq_false_iff] at formed
  exact ⟨formed.1.1.1.1.1.1.2.1, by simpa using formed.1.1.1.1.1.1.2.2⟩

/-- An announcement of a masternode that is not in the list. -/
theorem mnodeman_handle_of_absent (state : MasternodeTables)
    (formed : mnb.isWellFormed env state.mnodeman = true)
    (found : state.mnodeman.find mnb.vin = none) :
    (mnb.handle hashes env state).mnodeman = state.mnodeman ↔
      ¬ mnb.announces env state.mnodeman = true := by
  have pinged := mnb.lastPing_of_isWellFormed env formed
  simp only [handle, checkAndUpdate, announces, formed, found]
  cases env.isVinAssociatedWithPubkey mnb.vin mnb.pubKeyCollateralAddress with
  | false => simp
  | true =>
      cases own : mnb.isOwn env with
      | true => simp [checkInputsAndAdd, own]
      | false =>
          simp only [checkInputsAndAdd, own, pinged, found, mnodeman_addNew,
            Bool.not_true, Bool.not_false, Bool.or_self, Bool.and_self, Bool.true_and,
            Bool.false_eq_true, ↓reduceIte]
          cases mnb.isAddable env with
          | false => simp
          | true =>
              obtain ⟨length, -⟩ := state.mnodeman.find_add (mnb.toMasternode env) rfl found
              simp only [↓reduceIte, not_true_eq_false, iff_false]
              intro same
              rw [same] at length
              omega

/-- An announcement of a masternode that is in the list and not enabled. -/
theorem mnodeman_handle_of_disabled (state : MasternodeTables)
    (formed : mnb.isWellFormed env state.mnodeman = true) {pmn : CMasternode}
    (found : state.mnodeman.find mnb.vin = some pmn) (older : ¬ pmn.sigTime ≥ mnb.sigTime)
    (disabled : pmn.isEnabled = false) :
    (mnb.handle hashes env state).mnodeman = state.mnodeman ↔
      ¬ mnb.announces env state.mnodeman = true := by
  have pinged := mnb.lastPing_of_isWellFormed env formed
  simp only [handle, checkAndUpdate, announces, formed, found, older, disabled, decide_false,
    Bool.not_false, Bool.not_true, Bool.true_and, Bool.false_eq_true, ↓reduceIte]
  cases env.isVinAssociatedWithPubkey mnb.vin mnb.pubKeyCollateralAddress with
  | false => simp
  | true =>
      cases own : mnb.isOwn env with
      | true => simp [checkInputsAndAdd, own]
      | false =>
          simp only [Bool.not_true, Bool.false_eq_true, ↓reduceIte, Bool.true_and,
            Bool.not_false, not_true_eq_false, iff_false]
          rcases mnb.checkInputsAndAdd_of_found hashes env state found with ⟨-, reason⟩ | changed
          · exact absurd ⟨own, pinged.1, pinged.2, disabled⟩ reason
          · exact mnb.ne_of_stamp found older changed

/-- An announcement of a masternode that is in the list and enabled. -/
theorem mnodeman_handle_of_enabled (state : MasternodeTables)
    (formed : mnb.isWellFormed env state.mnodeman = true) {pmn : CMasternode}
    (found : state.mnodeman.find mnb.vin = some pmn) (older : ¬ pmn.sigTime ≥ mnb.sigTime)
    (enabled : pmn.isEnabled = true) :
    (mnb.handle hashes env state).mnodeman = state.mnodeman ↔
      ¬ mnb.announces env state.mnodeman = true := by
  simp only [handle, checkAndUpdate, announces, formed, found, older, enabled, decide_false,
    Bool.not_false, Bool.not_true, Bool.true_and, Bool.false_eq_true, ↓reduceIte]
  cases mnb.updates env pmn with
  | false => simp [checkInputsAndAdd_of_enabled hashes env mnb state found enabled]
  | true =>
      have stamped : ((mnb.updateFromNewBroadcast hashes env state).mnodeman.update
          mnb.vin (CMasternode.check env.node)).stamp mnb.vin =
            (state.mnodeman.vMasternodes.length, some mnb.sigTime) := by
        rw [CMasternodeMan.stamp_update _ (CMasternode.vin_check env.node)
          (CMasternode.sigTime_check env.node)]
        exact mnb.stamp_updateFromNewBroadcast hashes env state found
      obtain ⟨updated, added⟩ := mnb.handle_updated_ne hashes env state found older
        { mnb.updateFromNewBroadcast hashes env state with
          mnodeman := (mnb.updateFromNewBroadcast hashes env state).mnodeman.update
            mnb.vin (CMasternode.check env.node) } stamped
      simp only [Bool.not_true, Bool.false_eq_true, ↓reduceIte, not_true_eq_false, iff_false]
      split
      · exact updated
      · exact added

/-- An announcement that is marked changes the list exactly when it announces
something. -/
theorem mnodeman_handle_eq_iff (state : MasternodeTables) :
    (mnb.handle hashes env state).mnodeman = state.mnodeman ↔
      ¬ mnb.announces env state.mnodeman = true := by
  cases formed : mnb.isWellFormed env state.mnodeman with
  | false => simp [handle, checkAndUpdate, announces, formed]
  | true =>
      cases found : state.mnodeman.find mnb.vin with
      | none => exact mnb.mnodeman_handle_of_absent hashes env state formed found
      | some pmn =>
          by_cases newer : pmn.sigTime ≥ mnb.sigTime
          · simp [handle, checkAndUpdate, announces, formed, found, newer]
          · cases enabled : pmn.isEnabled with
            | false =>
                exact mnb.mnodeman_handle_of_disabled hashes env state formed found newer enabled
            | true =>
                exact mnb.mnodeman_handle_of_enabled hashes env state formed found newer enabled

end CMasternodeBroadcast

namespace MasternodeTables

variable {hashes : MasternodeHashes} {env env' : MasternodeEnv} (state : MasternodeTables)

/-- The tables with an announcement marked as seen. -/
def markMnb (hashes : MasternodeHashes) (mnb : CMasternodeBroadcast) : MasternodeTables :=
  { state with mapSeenMasternodeBroadcast :=
    state.mapSeenMasternodeBroadcast.insert (mnb.getHash hashes) mnb }

theorem processMnb_eq (mnb : CMasternodeBroadcast) :
    state.processMnb hashes env mnb =
      if handles env && !state.mapSeenMasternodeBroadcast.contains (mnb.getHash hashes) then
        mnb.handle hashes env (state.markMnb hashes mnb)
      else state := by
  unfold processMnb
  cases handles env with
  | false => rfl
  | true =>
      cases state.mapSeenMasternodeBroadcast.contains (mnb.getHash hashes) with
      | false => rfl
      | true => rfl

/-- **A forged copy shuts out an announcement.** If an announcement is preceded by a
copy with a bad signature, the list ends up as if it came alone exactly when the copy
or the announcement is not handled, the hash was seen before, or the announcement
changes nothing. -/
theorem mnodeman_after_forged_mnb_iff {mnb : CMasternodeBroadcast} {sig : List UInt8}
    (forged : CMasternodeBroadcast.verifySignature env' { mnb with sig } = false) :
    ((state.processMnb hashes env' { mnb with sig }).processMnb hashes env mnb).mnodeman =
        (state.processMnb hashes env mnb).mnodeman ↔
      ¬ (handles env' = true ∧ handles env = true ∧
        state.mapSeenMasternodeBroadcast.contains (mnb.getHash hashes) = false ∧
        mnb.announces env state.mnodeman = true) := by
  have hash : CMasternodeBroadcast.getHash hashes { mnb with sig } = mnb.getHash hashes := rfl
  have refused : CMasternodeBroadcast.handle hashes env' { mnb with sig }
      (state.markMnb hashes { mnb with sig }) = state.markMnb hashes { mnb with sig } := by
    simp [CMasternodeBroadcast.handle, CMasternodeBroadcast.checkAndUpdate,
      CMasternodeBroadcast.isWellFormed, forged]
  rw [state.processMnb_eq { mnb with sig }, hash]
  cases handles env' with
  | false => simp
  | true =>
      cases seen : state.mapSeenMasternodeBroadcast.contains (mnb.getHash hashes) with
      | true => simp
      | false =>
          have ignored : (state.markMnb hashes { mnb with sig }).processMnb hashes env mnb =
              state.markMnb hashes { mnb with sig } := by
            simp [processMnb_eq, markMnb, hash]
          simp only [Bool.not_false, Bool.and_self, ↓reduceIte, refused, ignored, true_and]
          rw [state.processMnb_eq mnb, seen]
          cases handles env with
          | false => simp [markMnb]
          | true =>
              simp only [Bool.not_false, Bool.and_self, ↓reduceIte, true_and]
              rw [eq_comm]
              exact mnb.mnodeman_handle_eq_iff hashes env (state.markMnb hashes mnb)

end MasternodeTables

end GiantCore
