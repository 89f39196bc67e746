import GiantCore.Chain.Node
import GiantCore.Foundation.Run

/-! # Sporks

`spork.cpp`: the values that the holder of the spork key sets for all nodes. A spork comes
in from the network, or from the node itself where it has the key. The active sporks are
kept in memory and in a database, from which they are read at the start.

The database is written by `ProcessSpork` but not by `UpdateSpork`.
-/

namespace GiantCore

/-- `CSporkMessage`. -/
structure CSporkMessage where
  nSporkID : Int
  nValue : Int
  nTimeSigned : Int
  vchSig : List UInt8
  deriving DecidableEq, Repr

/-- The names of the sporks. -/
def sporkNames : List (Int × String) :=
  [(10001, "SPORK_2_SWIFTTX"), (10002, "SPORK_3_SWIFTTX_BLOCK_FILTERING"),
    (10004, "SPORK_5_MAX_VALUE"), (10006, "SPORK_7_MASTERNODE_SCANNING"),
    (10007, "SPORK_8_MASTERNODE_PAYMENT_ENFORCEMENT"),
    (10008, "SPORK_9_MASTERNODE_BUDGET_ENFORCEMENT"),
    (10009, "SPORK_10_MASTERNODE_PAY_UPDATED_NODES"), (10012, "SPORK_13_ENABLE_SUPERBLOCKS"),
    (10013, "SPORK_14_NEW_PROTOCOL_ENFORCEMENT"), (10014, "SPORK_15_NEW_PROTOCOL_ENFORCEMENT_2"),
    (10015, "SPORK_16_ZEROCOIN_MAINTENANCE_MODE")]

/-- `GetSporkNameByID`. -/
def getSporkNameByID (id : Int) : String :=
  ((sporkNames.find? fun entry => entry.1 == id).map Prod.snd).getD "Unknown"

theorem exists_entry_of_name {id : Int} (known : getSporkNameByID id ≠ "Unknown") :
    ∃ entry ∈ sporkNames, entry.1 = id := by
  unfold getSporkNameByID at known
  cases found : sporkNames.find? fun entry => entry.1 == id with
  | none =>
      rw [found] at known
      exact absurd rfl known
  | some entry =>
      exact ⟨entry, List.mem_of_find?_eq_some found, by simpa using List.find?_some found⟩

/-- `SPORK_START`. -/
def sporkStart : Nat := 10001

/-- `SPORK_END`. -/
def sporkEnd : Nat := 10016

/-- The maps and the database of sporks. -/
structure SporkState where
  mapSporks : Uint256 → Option CSporkMessage := fun _ => none
  mapSporksActive : Int → Option CSporkMessage := fun _ => none
  /-- `pSporkDB`. -/
  sporkDB : Int → Option CSporkMessage := fun _ => none

/-- What the functions on sporks read. -/
structure SporkContext where
  node : NodeContext
  sporkKey : CPubKey
  sporkKeyOld : CPubKey
  /-- `nEnforceNewSporkKey`. -/
  newSporkStart : Int
  rejectOldSporkKey : Int
  /-- `CSporkMessage::GetHash`. -/
  getHash : CSporkMessage → Uint256
  /-- A signature with `strMasterPrivKey` that verifies, where there is one. -/
  signMessage : String → Option (List UInt8)

/-- The text that is signed. -/
def CSporkMessage.strMessage (spork : CSporkMessage) : String :=
  toString spork.nSporkID ++ toString spork.nValue ++ toString spork.nTimeSigned

namespace SporkContext

variable (ctx : SporkContext)

/-- `CSporkManager::CheckSignature`. -/
def checkSignature (spork : CSporkMessage) (fCheckSigner : Bool) : Bool :=
  let fValidWithNewKey := ctx.node.verifyMessage ctx.sporkKey spork.vchSig spork.strMessage
  if fCheckSigner && !fValidWithNewKey then false
  else if !fValidWithNewKey && decide (ctx.node.adjustedTime < ctx.rejectOldSporkKey) then
    ctx.node.verifyMessage ctx.sporkKeyOld spork.vchSig spork.strMessage
  else fValidWithNewKey

/-- `CSporkManager::Sign`. -/
def sign (spork : CSporkMessage) : Option CSporkMessage :=
  (ctx.signMessage spork.strMessage).map fun vchSig => { spork with vchSig }

end SporkContext

/-- What comes of a spork message. -/
inductive SporkOutcome where
  | ignored
  | seen
  /-- `Misbehaving(100)`. -/
  | misbehaving
  | relayed
  deriving DecidableEq, Repr

namespace SporkState

variable (ctx : SporkContext) (state : SporkState)

/-- The spork is put into the maps. -/
def activate (spork : CSporkMessage) : SporkState :=
  { state with
    mapSporks := Function.update state.mapSporks (ctx.getHash spork) (some spork)
    mapSporksActive := Function.update state.mapSporksActive spork.nSporkID (some spork) }

/-- `WriteSpork`. -/
def writeSpork (spork : CSporkMessage) : SporkState :=
  { state with sporkDB := Function.update state.sporkDB spork.nSporkID (some spork) }

/-- `ProcessSpork` of a spork. -/
def processSpork (spork : CSporkMessage) : SporkState × SporkOutcome :=
  if ctx.node.fLiteMode then (state, .ignored)
  else if ctx.node.tip.isNone then (state, .ignored)
  else if getSporkNameByID spork.nSporkID == "Unknown" then (state, .ignored)
  else if (state.mapSporksActive spork.nSporkID).any fun active =>
      decide (active.nTimeSigned ≥ spork.nTimeSigned) then (state, .seen)
  else if decide (spork.nTimeSigned ≥ ctx.newSporkStart) && !ctx.checkSignature spork true then
    (state, .misbehaving)
  else if !ctx.checkSignature spork false then (state, .misbehaving)
  else ((state.activate ctx spork).writeSpork spork, .relayed)

/-- `CSporkManager::UpdateSpork`, with whether it succeeds. -/
def updateSpork (nSporkID nValue : Int) : SporkState × Bool :=
  match ctx.sign { nSporkID, nValue, nTimeSigned := ctx.node.time, vchSig := [] } with
  | some msg => (state.activate ctx msg, true)
  | none => (state, false)

/-- One round of `LoadSporksFromDB`. -/
def loadSpork (state : SporkState) (i : Nat) : SporkState :=
  if getSporkNameByID i == "Unknown" then state
  else (state.sporkDB i).elim state (state.activate ctx)

/-- `LoadSporksFromDB`. -/
def loadSporksFromDB : SporkState :=
  (List.range' sporkStart (sporkEnd + 1 - sporkStart)).foldl (loadSpork ctx) state

/-- The node starts again: the maps are empty, and the database is read. -/
def restart : SporkState := ({ sporkDB := state.sporkDB } : SporkState).loadSporksFromDB ctx

end SporkState

end GiantCore
