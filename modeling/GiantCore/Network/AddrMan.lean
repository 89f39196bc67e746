import GiantCore.Masternode.Masternode
import Mathlib.Data.List.ProdSigma
import Mathlib.Data.List.FinRange

/-! # The address manager

`CAddrMan` of `addrman.cpp`: a map of entries with an index by address and a vector in random order,
and two tables of buckets with the entries that are new and that were tried. Empty places of the
tables (`-1`) are `none` and the ids are not bounded. What the random choices and the clock return
is given with each call; an assertion that fails is `none`.
-/

namespace GiantCore

open GiantCore.Foundation

/-- `CAddress`. The base `CNetAddr` of a service is its `ip`. -/
structure CAddress where
  service : CService
  nServices : UInt64 := 0
  /-- An `unsigned int`. -/
  nTime : Nat := 0
  deriving DecidableEq, Repr

/-- `CAddrInfo`: an address with what is known about it. -/
structure CAddrInfo where
  addr : CAddress
  source : List UInt8
  nLastTry : Int := 0
  nLastSuccess : Int := 0
  nAttempts : Int := 0
  nRefCount : Int := 0
  fInTried : Bool := false
  nRandomPos : Int := -1
  deriving DecidableEq, Repr

/-- What is hashed together with the key. -/
inductive AddrHashInput where
  | key (vchKey : List UInt8)
  | groupIndex (vchGroup : List UInt8) (index : UInt64)
  | groups (vchGroup vchSourceGroup : List UInt8)
  | position (fNew : Bool) (nBucket : Nat) (vchKey : List UInt8)
  deriving DecidableEq, Repr

/-- What the manager takes from the network code and the hashes. -/
structure AddrContext where
  /-- `CNetAddr::IsRoutable`. -/
  isRoutable : List UInt8 → Bool
  /-- `CNetAddr::GetGroup`. -/
  getGroup : List UInt8 → List UInt8
  /-- `CService::GetKey`. -/
  getKey : CService → List UInt8
  /-- The lowest 64 bits of the hash. -/
  hash : Uint256 → AddrHashInput → UInt64

namespace CAddrMan

/-- `ADDRMAN_TRIED_BUCKET_COUNT`. -/
abbrev triedBucketCount : Nat := 256

/-- `ADDRMAN_NEW_BUCKET_COUNT`. -/
abbrev newBucketCount : Nat := 1024

/-- `ADDRMAN_BUCKET_SIZE`. -/
abbrev bucketSize : Nat := 64

/-- `ADDRMAN_NEW_BUCKETS_PER_ADDRESS`. -/
def newBucketsPerAddress : Int := 8

end CAddrMan

open CAddrMan

/-- A place of the table of new addresses. -/
abbrev NewSlot := Fin newBucketCount × Fin bucketSize

/-- A place of the table of tried addresses. -/
abbrev TriedSlot := Fin triedBucketCount × Fin bucketSize

namespace AddrContext

variable (ctx : AddrContext) (nKey : Uint256)

/-- `GetTriedBucket`. -/
def getTriedBucket (service : CService) : Fin triedBucketCount :=
  let hash1 := ctx.hash nKey (.key (ctx.getKey service))
  let hash2 := ctx.hash nKey (.groupIndex (ctx.getGroup service.ip) (hash1 % 8))
  Fin.ofNat triedBucketCount hash2.toNat

/-- `GetNewBucket`. -/
def getNewBucket (service : CService) (src : List UInt8) : Fin newBucketCount :=
  let vchSourceGroupKey := ctx.getGroup src
  let hash1 := ctx.hash nKey (.groups (ctx.getGroup service.ip) vchSourceGroupKey)
  let hash2 := ctx.hash nKey (.groupIndex vchSourceGroupKey (hash1 % 64))
  Fin.ofNat newBucketCount hash2.toNat

/-- `GetBucketPosition`. -/
def getBucketPosition (service : CService) (fNew : Bool) (nBucket : Nat) : Fin bucketSize :=
  Fin.ofNat bucketSize (ctx.hash nKey (.position fNew nBucket (ctx.getKey service))).toNat

/-- The place of an address in a bucket for new ones. -/
def newSlot (service : CService) (nBucket : Fin newBucketCount) : NewSlot :=
  (nBucket, ctx.getBucketPosition nKey service true nBucket)

/-- The place of an address that was tried. -/
def triedSlot (service : CService) : TriedSlot :=
  let nKBucket := ctx.getTriedBucket nKey service
  (nKBucket, ctx.getBucketPosition nKey service false nKBucket)

end AddrContext

/-- `IsTerrible`. -/
def CAddrInfo.isTerrible (info : CAddrInfo) (nNow : Int) : Bool :=
  if info.nLastTry ≠ 0 ∧ info.nLastTry ≥ nNow - 60 then false
  else if (info.addr.nTime : Int) > nNow + 10 * 60 then true
  else if info.addr.nTime = 0 ∨ nNow - info.addr.nTime > 30 * 24 * 60 * 60 then true
  else if info.nLastSuccess = 0 ∧ info.nAttempts ≥ 3 then true
  else decide (nNow - info.nLastSuccess > 7 * 24 * 60 * 60 ∧ info.nAttempts ≥ 10)

/-- The address manager. -/
structure CAddrMan where
  nKey : Uint256
  nIdCount : Nat := 0
  mapInfo : Nat → Option CAddrInfo := fun _ => none
  mapAddr : List UInt8 → Option Nat := fun _ => none
  vRandom : List Nat := []
  nTried : Int := 0
  vvTried : TriedSlot → Option Nat := fun _ => none
  nNew : Int := 0
  vvNew : NewSlot → Option Nat := fun _ => none

namespace CAddrMan

variable (ctx : AddrContext) (man : CAddrMan)

/-- Change an entry of the map. -/
def modify (nId : Nat) (change : CAddrInfo → CAddrInfo) : CAddrMan :=
  { man with mapInfo := Function.update man.mapInfo nId ((man.mapInfo nId).map change) }

def setNew (slot : NewSlot) (value : Option Nat) : CAddrMan :=
  { man with vvNew := Function.update man.vvNew slot value }

def setTried (slot : TriedSlot) (value : Option Nat) : CAddrMan :=
  { man with vvTried := Function.update man.vvTried slot value }

/-- `Find`. -/
def find (ip : List UInt8) : Option (Nat × CAddrInfo) :=
  (man.mapAddr ip).bind fun nId => (man.mapInfo nId).map fun info => (nId, info)

/-- `Create`, with the id. -/
def create (addr : CAddress) (addrSource : List UInt8) : Nat × CAddrMan :=
  let nId := man.nIdCount
  let info : CAddrInfo := { addr, source := addrSource, nRandomPos := man.vRandom.length }
  (nId, { man with
    nIdCount := nId + 1
    mapInfo := Function.update man.mapInfo nId (some info)
    mapAddr := Function.update man.mapAddr addr.service.ip (some nId)
    vRandom := man.vRandom ++ [nId] })

/-- `SwapRandom`. -/
def swapRandom (nRndPos1 nRndPos2 : Nat) : Option CAddrMan :=
  if nRndPos1 = nRndPos2 then some man
  else do
    let nId1 ← man.vRandom[nRndPos1]?
    let nId2 ← man.vRandom[nRndPos2]?
    guard ((man.mapInfo nId1).isSome ∧ (man.mapInfo nId2).isSome)
    let man := man.modify nId1 fun info => { info with nRandomPos := nRndPos2 }
    let man := man.modify nId2 fun info => { info with nRandomPos := nRndPos1 }
    return { man with vRandom := (man.vRandom.set nRndPos1 nId2).set nRndPos2 nId1 }

/-- `Delete`. -/
def delete (nId : Nat) : Option CAddrMan := do
  let info ← man.mapInfo nId
  guard (info.fInTried = false ∧ info.nRefCount = 0)
  let man ← man.swapRandom info.nRandomPos.toNat (man.vRandom.length - 1)
  return { man with
    vRandom := man.vRandom.dropLast
    mapAddr := Function.update man.mapAddr info.addr.service.ip none
    mapInfo := Function.update man.mapInfo nId none
    nNew := man.nNew - 1 }

/-- `ClearNew`. -/
def clearNew (slot : NewSlot) : Option CAddrMan :=
  match man.vvNew slot with
  | none => some man
  | some nIdDelete => do
      -- the entry of an id that is not there would be made, and its count is 0
      let infoDelete ← man.mapInfo nIdDelete
      guard (infoDelete.nRefCount > 0)
      let man := man.modify nIdDelete fun info => { info with nRefCount := info.nRefCount - 1 }
      let man := man.setNew slot none
      if infoDelete.nRefCount - 1 = 0 then man.delete nIdDelete else some man

/-- The entry is removed from one of the new buckets. -/
def leaveBucket (nId : Nat) (service : CService) (man : CAddrMan) (nBucket : Fin newBucketCount) :
    CAddrMan :=
  let slot := ctx.newSlot man.nKey service nBucket
  if man.vvNew slot = some nId then
    (man.setNew slot none).modify nId fun info => { info with nRefCount := info.nRefCount - 1 }
  else man

/-- Move the entry of a place in the tried table back to the new one. -/
def evict (slot : TriedSlot) : Option CAddrMan :=
  match man.vvTried slot with
  | none => some man
  | some nIdEvict => do
      let infoOld ← man.mapInfo nIdEvict
      let man := man.modify nIdEvict fun info => { info with fInTried := false }
      let man : CAddrMan := { man.setTried slot none with nTried := man.nTried - 1 }
      let nUBucket := ctx.getNewBucket man.nKey infoOld.addr.service infoOld.source
      let newSlot := ctx.newSlot man.nKey infoOld.addr.service nUBucket
      let man : CAddrMan ← man.clearNew newSlot
      guard (man.vvNew newSlot = none)
      let man := man.modify nIdEvict fun info => { info with nRefCount := 1 }
      let man := man.setNew newSlot (some nIdEvict)
      return { man with nNew := man.nNew + 1 }

/-- `MakeTried`. -/
def makeTried (info : CAddrInfo) (nId : Nat) : Option CAddrMan := do
  -- remove the entry from all new buckets
  let man := (List.finRange newBucketCount).foldl (leaveBucket ctx nId info.addr.service) man
  let man : CAddrMan := { man with nNew := man.nNew - 1 }
  let left ← man.mapInfo nId
  guard (left.nRefCount = 0)
  -- first make space to add it
  let slot := ctx.triedSlot man.nKey info.addr.service
  let man : CAddrMan ← man.evict ctx slot
  guard (man.vvTried slot = none)
  let man : CAddrMan := { man.setTried slot (some nId) with nTried := man.nTried + 1 }
  return man.modify nId fun info => { info with fInTried := true }

/-- `Good_`, with the choice of the first bucket to look into. -/
def good (addr : CService) (nTime : Int) (nRnd : Nat) : Option CAddrMan :=
  match man.find addr.ip with
  | none => some man
  | some (nId, info) =>
      if info.addr.service ≠ addr then some man
      else
        let man := man.modify nId fun info =>
          { info with nLastSuccess := nTime, nLastTry := nTime, nAttempts := 0 }
        if info.fInTried then some man
        else
          let nUBucket := (List.range newBucketCount).find? fun n =>
            let nB := Fin.ofNat newBucketCount (n + nRnd)
            man.vvNew (ctx.newSlot man.nKey info.addr.service nB) = some nId
          if nUBucket.isNone then some man else man.makeTried ctx info nId

/-- What `Add_` finds outside: the clock twice and a random number. -/
structure AddChoices where
  nowOnline : Int
  nowTerrible : Int
  nRand : Nat

/-- An entry that is known gets the news, and may take another place. -/
def refresh (nId : Nat) (info : CAddrInfo) (addr : CAddress) (nTimePenalty : Int)
    (choices : AddChoices) : CAddrMan × Bool :=
  let fCurrentlyOnline := choices.nowOnline - addr.nTime < 24 * 60 * 60
  let nUpdateInterval : Int := if fCurrentlyOnline then 60 * 60 else 24 * 60 * 60
  let nTime := if addr.nTime ≠ 0 ∧ (info.addr.nTime = 0 ∨
      (info.addr.nTime : Int) < addr.nTime - nUpdateInterval - nTimePenalty) then
    (max 0 ((addr.nTime : Int) - nTimePenalty)).toNat % 2 ^ 32 else info.addr.nTime
  let nServices := info.addr.nServices ||| addr.nServices
  let man := man.modify nId fun info => { info with addr := { info.addr with nTime, nServices } }
  let again := addr.nTime ≠ 0 ∧ ¬(nTime ≠ 0 ∧ addr.nTime ≤ nTime) ∧ info.fInTried = false ∧
    info.nRefCount ≠ newBucketsPerAddress ∧
    -- previous nRefCount == N: 2^N times harder to increase it
    (2 ^ info.nRefCount.toNat ≤ 1 ∨ choices.nRand % 2 ^ info.nRefCount.toNat = 0)
  (man, decide again)

/-- An entry gives its place to another one. -/
def overwrites (info infoExisting : CAddrInfo) (nNow : Int) : Bool :=
  infoExisting.isTerrible nNow || decide (infoExisting.nRefCount > 1 ∧ info.nRefCount = 0)

/-- The entry may take the place, which is free or of an entry that it overwrites. -/
def mayInsert (info : CAddrInfo) (slot : NewSlot) (nowTerrible : Int) : Option Bool :=
  match man.vvNew slot with
  | none => some true
  | some nIdExisting => (man.mapInfo nIdExisting).map (overwrites info · nowTerrible)

/-- The second half of `Add_`: take a place in a new bucket. -/
def place (nId : Nat) (source : List UInt8) (nowTerrible : Int) : Option CAddrMan := do
  let info ← man.mapInfo nId
  let nUBucket := ctx.getNewBucket man.nKey info.addr.service source
  let slot := ctx.newSlot man.nKey info.addr.service nUBucket
  if man.vvNew slot = some nId then some man
  else
    let fInsert ← man.mayInsert info slot nowTerrible
    if fInsert then
      let man ← man.clearNew slot
      let man := man.modify nId fun info => { info with nRefCount := info.nRefCount + 1 }
      return man.setNew slot (some nId)
    else if info.nRefCount = 0 then man.delete nId
    else some man

/-- `Add_`. -/
def add (addr : CAddress) (source : List UInt8) (nTimePenalty : Int) (choices : AddChoices) :
    Option (CAddrMan × Bool) :=
  if ctx.isRoutable addr.service.ip = false then some (man, false)
  else match man.find addr.service.ip with
    | some (nId, info) =>
        let (man, again) := man.refresh nId info addr nTimePenalty choices
        if again then (man.place ctx nId source choices.nowTerrible).map fun man => (man, false)
        else some (man, false)
    | none =>
        let nTime := (max 0 ((addr.nTime : Int) - nTimePenalty)).toNat % 2 ^ 32
        let (nId, man) := man.create addr source
        let man := man.modify nId fun info => { info with addr := { info.addr with nTime } }
        let man := { man with nNew := man.nNew + 1 }
        (man.place ctx nId source choices.nowTerrible).map fun man => (man, true)

/-- `Attempt_`. -/
def attempt (addr : CService) (nTime : Int) : CAddrMan :=
  match man.find addr.ip with
  | none => man
  | some (nId, info) =>
      if info.addr.service ≠ addr then man
      else man.modify nId fun info =>
        { info with nLastTry := nTime, nAttempts := info.nAttempts + 1 }

/-- `Connected_`. -/
def connected (addr : CService) (nTime : Int) : CAddrMan :=
  match man.find addr.ip with
  | none => man
  | some (nId, info) =>
      if info.addr.service ≠ addr then man
      else if nTime - info.addr.nTime > 20 * 60 then
        man.modify nId fun info =>
          { info with addr := { info.addr with nTime := (nTime % 2 ^ 32).toNat } }
      else man

/-- The loop of `GetAddr_`, with the random choices and the clock of its rounds. -/
def getAddrLoop (nNodes : Nat) (nRand : Nat → Nat) (nNow : Nat → Int) :
    Nat → Nat → CAddrMan → List CAddress → Option (CAddrMan × List CAddress)
  | 0, _, man, vAddr => some (man, vAddr)
  | rounds + 1, n, man, vAddr =>
      if n ≥ man.vRandom.length ∨ vAddr.length ≥ nNodes then some (man, vAddr)
      else do
        let nRndPos := nRand n % (man.vRandom.length - n) + n
        let man ← man.swapRandom n nRndPos
        let nId ← man.vRandom[n]?
        let ai ← man.mapInfo nId
        getAddrLoop nNodes nRand nNow rounds (n + 1) man
          (if ai.isTerrible (nNow n) then vAddr else vAddr ++ [ai.addr])

/-- `GetAddr_`. -/
def getAddr (nRand : Nat → Nat) (nNow : Nat → Int) : Option (CAddrMan × List CAddress) :=
  let nNodes := min (23 * man.vRandom.length / 100) 2500
  getAddrLoop nNodes nRand nNow man.vRandom.length 0 man []

/-! ## The check -/

/-- The places of the tables, in the order of the loops. -/
def allNew : List NewSlot := (List.finRange newBucketCount).product (List.finRange bucketSize)

def allTried : List TriedSlot := (List.finRange triedBucketCount).product (List.finRange bucketSize)

/-- The entries of the map by their ids, which are below the next one. -/
def entries : List (Nat × CAddrInfo) :=
  (List.range man.nIdCount).filterMap fun n => (man.mapInfo n).map fun info => (n, info)

/-- The error of an entry. -/
def checkEntry (n : Nat) (info : CAddrInfo) : Option Int :=
  if info.fInTried = true ∧ info.nLastSuccess = 0 then some (-1)
  else if info.fInTried = true ∧ info.nRefCount ≠ 0 then some (-2)
  else if info.fInTried = false ∧ (info.nRefCount < 0 ∨ info.nRefCount > newBucketsPerAddress) then
    some (-3)
  else if info.fInTried = false ∧ info.nRefCount = 0 then some (-4)
  else if (man.mapAddr info.addr.service.ip).getD 0 ≠ n then some (-5)
  else if info.nRandomPos < 0 ∨ info.nRandomPos ≥ man.vRandom.length ∨
      man.vRandom[info.nRandomPos.toNat]? ≠ some n then some (-14)
  else if info.nLastTry < 0 then some (-6)
  else if info.nLastSuccess < 0 then some (-8)
  else none

/-- The loop over the tried table, with the tried entries that were not seen yet. -/
def checkTried : List TriedSlot → (Nat → Bool) → Except Int (Nat → Bool)
  | [], setTried => .ok setTried
  | slot :: rest, setTried =>
      match man.vvTried slot with
      | none => checkTried rest setTried
      | some n =>
          if setTried n = false then .error (-11)
          else if (man.mapInfo n).any fun info =>
              ctx.getTriedBucket man.nKey info.addr.service != slot.1 then .error (-17)
          else if (man.mapInfo n).any fun info =>
              ctx.getBucketPosition man.nKey info.addr.service false slot.1 != slot.2 then
            .error (-18)
          else checkTried rest (Function.update setTried n false)

/-- The loop over the new table, with the places of each entry that were not seen yet. -/
def checkNew : List NewSlot → (Nat → Int) → Except Int (Nat → Int)
  | [], mapNew => .ok mapNew
  | slot :: rest, mapNew =>
      match man.vvNew slot with
      | none => checkNew rest mapNew
      | some n =>
          if mapNew n = 0 then .error (-12)
          else if (man.mapInfo n).any fun info =>
              ctx.getBucketPosition man.nKey info.addr.service true slot.1 != slot.2 then
            .error (-19)
          else checkNew rest (Function.update mapNew n (mapNew n - 1))

/-- The entry was tried. -/
def isTried (n : Nat) : Bool := (man.mapInfo n).any CAddrInfo.fInTried

/-- The places that a new entry should have; an id with none is not in the map. -/
def refCountOf (n : Nat) : Int :=
  (man.mapInfo n).elim 0 fun info => if info.fInTried then 0 else info.nRefCount

/-- `Check_`. -/
def check : Int :=
  if (man.vRandom.length : Int) ≠ man.nTried + man.nNew then -7
  else match man.entries.findSome? fun (n, info) => man.checkEntry n info with
    | some error => error
    | none =>
        let ids := List.range man.nIdCount
        if ids.countP man.isTried ≠ man.nTried then -9
        else if ids.countP (man.refCountOf · ≠ 0) ≠ man.nNew then -10
        else match man.checkTried ctx allTried man.isTried with
          | .error error => error
          | .ok setTried => match man.checkNew ctx allNew man.refCountOf with
            | .error error => error
            | .ok mapNew =>
                if ids.any setTried then -13
                else if ids.any (mapNew · ≠ 0) then -15
                else if man.nKey = 0 then -16
                else 0

/-! ## Calls -/

/-- A call, with what it finds outside. -/
inductive Call where
  | add (addr : CAddress) (source : List UInt8) (nTimePenalty : Int) (choices : AddChoices)
  | good (addr : CService) (nTime : Int) (nRnd : Nat)
  | attempt (addr : CService) (nTime : Int)
  | connected (addr : CService) (nTime : Int)
  | getAddr (nRand : Nat → Nat) (nNow : Nat → Int)

/-- The times of a call are positive. -/
def Call.Timely : Call → Prop
  | .good _ nTime _ | .attempt _ nTime | .connected _ nTime => 0 < nTime
  | _ => True

/-- The manager after a call; nothing if an assertion fails. -/
def run : Call → Option CAddrMan
  | .add addr source nTimePenalty choices =>
      (man.add ctx addr source nTimePenalty choices).map Prod.fst
  | .good addr nTime nRnd => man.good ctx addr nTime nRnd
  | .attempt addr nTime => some (man.attempt addr nTime)
  | .connected addr nTime => some (man.connected addr nTime)
  | .getAddr nRand nNow => (man.getAddr nRand nNow).map Prod.fst

end CAddrMan

end GiantCore
