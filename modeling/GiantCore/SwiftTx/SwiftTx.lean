import GiantCore.Masternode.Masternode

/-! # SwiftTX transaction locks

The handlers of `swifttx.cpp`. A lock request (`ix`) makes a lock for a
transaction, the top masternodes vote for it (`txlvote`), and with six votes at
the height of the lock the inputs of the transaction are locked: neither the
memory pool nor `CheckBlock` takes another transaction that spends them.
`CleanTransactionLocksList` removes what has expired.

The handlers share six maps. They differ in which of the maps they consult: a
request that the memory pool refuses locks its inputs as well, without a vote,
and the cleaner only frees inputs of transactions in `mapTxLockReq`.
-/

namespace GiantCore

/-- A vote of a masternode for a lock. -/
structure CConsensusVote where
  vinMasternode : CTxIn
  txHash : Uint256
  nBlockHeight : Int
  vchMasterNodeSignature : List UInt8
  deriving DecidableEq, Repr

/-- `GetHash`: a sum of the voter and the transaction. The height and the signature
are no part of it. -/
def CConsensusVote.getHash (vote : CConsensusVote) : Uint256 :=
  vote.vinMasternode.prevout.hash + BitVec.ofNat 256 vote.vinMasternode.prevout.n.toNat +
    vote.txHash

structure CTransactionLock where
  nBlockHeight : Int
  txHash : Uint256
  vecConsensusVotes : List CConsensusVote := []
  nExpiration : Int
  deriving DecidableEq, Repr

namespace CTransactionLock

def addSignature (lock : CTransactionLock) (cv : CConsensusVote) : CTransactionLock :=
  { lock with vecConsensusVotes := lock.vecConsensusVotes ++ [cv] }

/-- `CountSignatures`: only votes at the height of the lock count. -/
def countSignatures (lock : CTransactionLock) : Int :=
  if lock.nBlockHeight = 0 then -1
  else (lock.vecConsensusVotes.countP fun v => v.nBlockHeight == lock.nBlockHeight : Nat)

end CTransactionLock

/-- `SWIFTTX_SIGNATURES_REQUIRED`. -/
def swiftTxSignaturesRequired : Int := 6

/-- `SWIFTTX_SIGNATURES_TOTAL`. -/
def swiftTxSignaturesTotal : Int := 10

/-- `MIN_SWIFTTX_PROTO_VERSION`. -/
def minSwiftTxProtoVersion : Int := 70103

/-- What a handler reads and does not change. -/
structure SwiftEnv where
  node : NodeContext
  mnodeman : CMasternodeMan
  /-- `GetTransaction`, from the memory pool or a block. -/
  getTransaction : Uint256 → Option CTransaction
  /-- `GetInputAge`. -/
  getInputAge : CTxIn → Int
  isNormalPaymentScript : CScript → Bool
  /-- The tests of `AcceptToMemoryPool` other than its scan of the locked inputs. -/
  mempoolAccepts : CTransaction → Bool
  /-- The input of the node's own masternode, if it runs one. -/
  activeMasternode : Option CTxIn
  /-- `CConsensusVote::Sign` of the node's own masternode. -/
  sign : Uint256 → Int → Option (List UInt8)
  /-- `uint256::ToString`. -/
  hashText : Uint256 → String

/-- The maps of `swifttx.cpp`. -/
structure SwiftState where
  mapTxLockReq : Std.ExtTreeMap Uint256 CTransaction := ∅
  mapTxLockReqRejected : Std.ExtTreeMap Uint256 CTransaction := ∅
  mapTxLockVote : Std.ExtTreeMap Uint256 CConsensusVote := ∅
  mapTxLocks : Std.ExtTreeMap Uint256 CTransactionLock := ∅
  mapLockedInputs : COutPoint → Option Uint256 := fun _ => none
  mapUnknownVotes : Std.ExtTreeMap Uint256 Int := ∅

/-- `CTransaction()`: no inputs and a hash of zero. -/
def CTransaction.empty : CTransaction where
  hash := 0
  vin := []
  vout := []

namespace SwiftState

variable (env : SwiftEnv) (state : SwiftState)

/-- `IsIXTXValid`. The fee is compared with `COIN * 0.01`. -/
def isIXTXValid (txCollateral : CTransaction) : Bool :=
  if txCollateral.vout.length < 1 then false
  else if txCollateral.nLockTime ≠ 0 then false
  else
    let nValueOut := (txCollateral.vout.map CTxOut.nValue).sum
    let value := fun txin : CTxIn =>
      (env.getTransaction txin.prevout.hash).bind fun tx2 =>
        tx2.vout[txin.prevout.n.toNat]?.map CTxOut.nValue
    let nValueIn := (txCollateral.vin.map fun txin => (value txin).getD 0).sum
    let missingTx := txCollateral.vin.any fun txin => (env.getTransaction txin.prevout.hash).isNone
    if nValueOut > env.node.getSporkValue .maxValue * COIN then false
    else if missingTx then true
    else !(nValueIn - nValueOut < 1000000)

/-- `CreateNewLock`. The loop over the inputs runs backwards, so that the age of the
first one is left; a lock that exists gets the new height. -/
def createNewLock (tx : CTransaction) : SwiftState × Int :=
  if tx.vin.any fun txin => env.getInputAge txin < 5 then (state, 0)
  else
    let nTxAge := tx.vin.head?.elim 0 env.getInputAge
    let nBlockHeight := (env.node.height - nTxAge) + 4
    let lock :=
      match state.mapTxLocks[tx.hash]? with
      | none =>
          { nBlockHeight, txHash := tx.hash, nExpiration := storeInt (env.node.time + 60 * 60) }
      | some lock => { lock with nBlockHeight }
    ({ state with mapTxLocks := state.mapTxLocks.insert tx.hash lock }, nBlockHeight)

/-- `SignatureValid`, with the masternode list as it is at that moment. -/
def signatureValid (mnodeman : CMasternodeMan) (vote : CConsensusVote) : Bool :=
  match mnodeman.find vote.vinMasternode with
  | none => false
  | some pmn =>
      env.node.verifyMessage pmn.pubKeyMasternode vote.vchMasterNodeSignature
        (env.hashText vote.txHash ++ toString vote.nBlockHeight)

/-- `GetMasternodeRank` of a voter at a height. -/
def rank (vinMasternode : CTxIn) (nBlockHeight : Int) : CMasternodeMan × Int :=
  env.mnodeman.getMasternodeRank env.node vinMasternode nBlockHeight minSwiftTxProtoVersion

/-- `DoConsensusVote`: the node's own vote is remembered, and counted only when it
comes back from a peer. -/
def doConsensusVote (tx : CTransaction) (nBlockHeight : Int) : SwiftState :=
  match env.activeMasternode with
  | none => state
  | some vinMasternode =>
      let (mnodeman, n) := rank env vinMasternode nBlockHeight
      if n = -1 || n > swiftTxSignaturesTotal then state
      else
        match env.sign tx.hash nBlockHeight with
        | none => state
        | some vchMasterNodeSignature =>
            let ctx : CConsensusVote :=
              { vinMasternode, txHash := tx.hash, nBlockHeight, vchMasterNodeSignature }
            if !signatureValid env mnodeman ctx then state
            else { state with mapTxLockVote := state.mapTxLockVote.insert ctx.getHash ctx }

/-- Lock the inputs that are not locked. -/
def lockInputs (locked : COutPoint → Option Uint256) (txHash : Uint256) :
    List CTxIn → COutPoint → Option Uint256
  | [] => locked
  | txin :: rest =>
      lockInputs
        (if (locked txin.prevout).isNone then Function.update locked txin.prevout (some txHash)
          else locked) txHash rest

/-- Set the expiration of a lock that exists. -/
def expire (txHash : Uint256) : SwiftState :=
  { state with mapTxLocks := state.mapTxLocks.modify txHash fun lock =>
      { lock with nExpiration := storeInt env.node.time } }

/-- `CheckForConflictingLocks`: two conflicting locks cancel each other out. -/
def checkForConflictingLocks (tx : CTransaction) : SwiftState × Bool :=
  match tx.vin.findSome? fun txin =>
      (state.mapLockedInputs txin.prevout).filter (· ≠ tx.hash) with
  | none => (state, false)
  | some other => ((state.expire env tx.hash).expire env other, true)

/-- The part of `ProcessConsensusVote` for a complete lock. Looking the request up
creates it if it is not there. -/
def completeLock (txHash : Uint256) : SwiftState :=
  let tx := state.mapTxLockReq[txHash]?.getD CTransaction.empty
  let state := { state with
    mapTxLockReq := state.mapTxLockReq.insertIfNew txHash CTransaction.empty }
  let (state, conflict) := state.checkForConflictingLocks env tx
  if !conflict && state.mapTxLockReq.contains txHash then
    { state with mapLockedInputs := lockInputs state.mapLockedInputs txHash tx.vin }
  else state

/-- The lock that a vote is added to. -/
def lockFor (txHash : Uint256) : CTransactionLock :=
  state.mapTxLocks[txHash]?.getD
    { nBlockHeight := 0, txHash, nExpiration := storeInt (env.node.time + 60 * 60) }

/-- The part of `ProcessConsensusVote` for a vote that is taken. -/
def countVote (ctx : CConsensusVote) : SwiftState :=
  let lock := (state.lockFor env ctx.txHash).addSignature ctx
  let state := { state with mapTxLocks := state.mapTxLocks.insert ctx.txHash lock }
  if lock.countSignatures ≥ swiftTxSignaturesRequired then state.completeLock env ctx.txHash
  else state

/-- `ProcessConsensusVote`, and whether the vote was taken. -/
def processConsensusVote (ctx : CConsensusVote) : SwiftState × Bool :=
  let (mnodeman, n) := rank env ctx.vinMasternode ctx.nBlockHeight
  if n = -1 then (state, false)
  else if n > swiftTxSignaturesTotal then (state, false)
  else if !signatureValid env mnodeman ctx then (state, false)
  else (state.countVote env ctx, true)

/-- The tests at the start of `ProcessMessageSwiftTX`. -/
def handles : Bool :=
  !env.node.fLiteMode && env.node.isSporkActive .swiftTx && env.node.isBlockchainSynced

/-- The scan of `AcceptToMemoryPool` for locked inputs, and its other tests. -/
def acceptToMemoryPool (tx : CTransaction) : Bool :=
  (tx.vin.all fun txin => (state.mapLockedInputs txin.prevout).all (· == tx.hash)) &&
    env.mempoolAccepts tx

/-- The lock request goes on to the memory pool: it is new and well formed. -/
def considers (tx : CTransaction) : Bool :=
  handles env &&
    !(state.mapTxLockReq.contains tx.hash || state.mapTxLockReqRejected.contains tx.hash) &&
    isIXTXValid env tx && tx.vout.all fun out =>
      env.isNormalPaymentScript out.scriptPubKey || CScript.isUnspendable out.scriptPubKey

/-- A refused request is remembered, and its inputs are locked. -/
def recordRejection (tx : CTransaction) : SwiftState :=
  { state with
    mapTxLockReqRejected := state.mapTxLockReqRejected.insertIfNew tx.hash tx
    mapLockedInputs := lockInputs state.mapLockedInputs tx.hash tx.vin }

/-- The `ix` handler for a request that the memory pool refused. -/
def rejectRequest (tx : CTransaction) : SwiftState :=
  let state := state.recordRejection tx
  match state.mapTxLocks[tx.hash]? with
  | none => state
  | some lock =>
      -- we only care if we have a complete tx lock
      if lock.countSignatures ≥ swiftTxSignaturesRequired then
        let (state, conflict) := state.checkForConflictingLocks env tx
        if !conflict then
          { state with mapTxLockReq := state.mapTxLockReq.insertIfNew tx.hash tx }
        else state
      else state

/-- The `ix` handler. -/
def processIx (tx : CTransaction) : SwiftState :=
  if state.considers env tx then
    let (state, nBlockHeight) := state.createNewLock env tx
    if state.acceptToMemoryPool env tx then
      let state := state.doConsensusVote env tx nBlockHeight
      { state with mapTxLockReq := state.mapTxLockReq.insertIfNew tx.hash tx }
    else state.rejectRequest env tx
  else state

/-- `GetAverageVoteTime`. -/
def getAverageVoteTime : Int :=
  (state.mapUnknownVotes.toList.map Prod.snd).sum.tdiv state.mapUnknownVotes.toList.length

/-- The spam protection for votes whose transaction is not known. -/
def trackUnknownVote (ctx : CConsensusVote) : SwiftState :=
  if !state.mapTxLockReq.contains ctx.txHash &&
      !state.mapTxLockReqRejected.contains ctx.txHash then
    let key := ctx.vinMasternode.prevout.hash
    let state := { state with
      mapUnknownVotes := state.mapUnknownVotes.insertIfNew key (env.node.time + 60 * 10) }
    let vote := state.mapUnknownVotes[key]?.getD 0
    if vote > env.node.time && vote - state.getAverageVoteTime > 60 * 10 then state
    else
      { state with
        mapUnknownVotes := state.mapUnknownVotes.insert key (env.node.time + 60 * 10) }
  else state

/-- The `txlvote` handler. The vote is remembered before it is looked at. -/
def processTxlvote (ctx : CConsensusVote) : SwiftState :=
  if handles env then
    if state.mapTxLockVote.contains ctx.getHash then state
    else
      let state := { state with mapTxLockVote := state.mapTxLockVote.insert ctx.getHash ctx }
      let (state, taken) := state.processConsensusVote env ctx
      if taken then state.trackUnknownVote env ctx else state
  else state

/-- What the cleaner does about the request of an expired lock, if it is there: all
its inputs are freed, whoever they are locked for. -/
def releaseRequest (lock : CTransactionLock) : SwiftState :=
  match state.mapTxLockReq[lock.txHash]? with
  | none => state
  | some tx =>
      { state with
        mapLockedInputs := fun out =>
          if out ∈ tx.vin.map CTxIn.prevout then none else state.mapLockedInputs out
        mapTxLockReq := state.mapTxLockReq.erase lock.txHash
        mapTxLockReqRejected := state.mapTxLockReqRejected.erase lock.txHash
        mapTxLockVote := lock.vecConsensusVotes.foldl
          (fun votes (v : CConsensusVote) => votes.erase v.getHash) state.mapTxLockVote }

/-- One round of the loop of `CleanTransactionLocksList`. -/
def cleanLock (now : Int) (it : Uint256 × CTransactionLock) : SwiftState :=
  if now > it.2.nExpiration then
    let state := state.releaseRequest it.2
    { state with mapTxLocks := state.mapTxLocks.erase it.1 }
  else state

/-- `CleanTransactionLocksList`. -/
def cleanTransactionLocksList : SwiftState :=
  match env.node.tip with
  | none => state
  | some _ =>
      state.mapTxLocks.toList.foldl (fun state it => state.cleanLock env.node.time it) state

/-- A lock request that the wallet or an RPC command of the node sends. -/
def sendIx (tx : CTransaction) : SwiftState :=
  ({ state with
    mapTxLockReq := state.mapTxLockReq.insertIfNew tx.hash tx }.createNewLock env tx).1

end SwiftState

/-- What can happen to the maps. Each event brings its own surroundings, since blocks
and masternodes come and go between them. -/
inductive SwiftAction where
  | ix (env : SwiftEnv) (tx : CTransaction)
  | txlvote (env : SwiftEnv) (ctx : CConsensusVote)
  | sendIx (env : SwiftEnv) (tx : CTransaction)
  | clean (env : SwiftEnv)

namespace SwiftState

def step (state : SwiftState) : SwiftAction → SwiftState
  | .ix env tx => state.processIx env tx
  | .txlvote env ctx => state.processTxlvote env ctx
  | .sendIx env tx => state.sendIx env tx
  | .clean env => state.cleanTransactionLocksList env

end SwiftState

end GiantCore
