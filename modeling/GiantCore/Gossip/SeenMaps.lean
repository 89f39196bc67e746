import GiantCore.Budget.VoteGossip
import GiantCore.Masternode.Broadcast
import GiantCore.SwiftTx.Locks

/-! # Forged copies of signed messages

Five handlers remember messages by a hash that leaves out the signature: `mvote`,
`fbvote`, `mnb`, `mnp` and `txlvote`. Each of them remembers a message before it looks
at the signature, so a copy of a message with a bad signature keeps the message itself
from having its effect. The message has the effect it would have alone only if it has
none.
-/

namespace GiantCore

/-- **Seen maps and forged copies.** For each of the five kinds of message, a message
that is preceded by a copy with a bad signature leaves the votes, the masternode list
and the lock signatures as it would alone exactly when the copy is not marked as seen,
or the message has no effect of its own. -/
theorem forged_copy_harmless_iff (hashes : BudgetHashes) (mnHashes : MasternodeHashes) :
    (∀ (env env' : BudgetEnv) (tables : BudgetTables)
      (vote : CBudgetVote) (vchSig : List UInt8),
      env'.signatureValid { vote with vchSig } = false → env.signatureValid vote = true →
      (((tables.processMvote hashes env' { vote with vchSig }).processMvote hashes env
            vote).proposals.items = (tables.processMvote hashes env vote).proposals.items ↔
        ¬ (tables.proposals.marks hashes env' { vote with vchSig } = true ∧
          tables.proposals.marks hashes env vote = true ∧
          tables.proposals.counts hashes env vote = true))) ∧
    (∀ (env env' : BudgetEnv) (tables : BudgetTables)
      (vote : CFinalizedBudgetVote) (vchSig : List UInt8),
      env'.signatureValid { vote with vchSig } = false → env.signatureValid vote = true →
      (((tables.processFbvote hashes env' { vote with vchSig }).processFbvote hashes env
            vote).finalizedBudgets.items =
          (tables.processFbvote hashes env vote).finalizedBudgets.items ↔
        ¬ (tables.finalizedBudgets.marks hashes env' { vote with vchSig } = true ∧
          tables.finalizedBudgets.marks hashes env vote = true ∧
          tables.finalizedBudgets.counts hashes env vote = true))) ∧
    (∀ (env env' : MasternodeEnv) (state : MasternodeTables)
      (mnb : CMasternodeBroadcast) (sig : List UInt8),
      CMasternodeBroadcast.verifySignature env' { mnb with sig } = false →
      (((state.processMnb mnHashes env' { mnb with sig }).processMnb mnHashes env mnb).mnodeman =
          (state.processMnb mnHashes env mnb).mnodeman ↔
        ¬ (MasternodeTables.handles env' = true ∧ MasternodeTables.handles env = true ∧
          state.mapSeenMasternodeBroadcast.contains (mnb.getHash mnHashes) = false ∧
          mnb.announces env state.mnodeman = true))) ∧
    (∀ (env env' : MasternodeEnv) (state : MasternodeTables)
      (mnp : CMasternodePing) (vchSig : List UInt8),
      (∀ pmn, state.mnodeman.find mnp.vin = some pmn →
        CMasternodePing.verifySignature env' { mnp with vchSig } pmn.pubKeyMasternode = false) →
      mnp.IsSigned env state.mnodeman →
      (((state.processMnp mnHashes env' { mnp with vchSig }).processMnp mnHashes env mnp).mnodeman =
          (state.processMnp mnHashes env mnp).mnodeman ↔
        ¬ (MasternodeTables.handles env' = true ∧ MasternodeTables.handles env = true ∧
          state.mapSeenMasternodePing.contains (mnp.getHash mnHashes) = false ∧
          mnp.refreshes env state.mnodeman = true))) ∧
    ∀ (env env' : SwiftEnv) (state : SwiftState) (vote : CConsensusVote)
      (vchMasterNodeSignature : List UInt8),
      SwiftState.signatureValid env' env'.mnodeman { vote with vchMasterNodeSignature } = false →
      SwiftState.signatureValid env env.mnodeman vote = true →
      (SwiftState.votesFor ((state.processTxlvote env'
            { vote with vchMasterNodeSignature }).processTxlvote env vote).mapTxLocks =
          SwiftState.votesFor (state.processTxlvote env vote).mapTxLocks ↔
        ¬ (SwiftState.handles env' = true ∧ SwiftState.handles env = true ∧
          state.mapTxLockVote.contains vote.getHash = false ∧
          SwiftState.isRanked env vote = true)) := by
  refine ⟨?_, ?_, ?_, ?_, ?_⟩
  · intro env env' tables vote vchSig forged signed
    exact VoteTable.items_after_forged_iff hashes tables.proposals vote _ rfl forged signed
  · intro env env' tables vote vchSig forged signed
    exact VoteTable.items_after_forged_iff hashes tables.finalizedBudgets vote _ rfl
      forged signed
  · intro env env' state mnb sig forged
    exact state.mnodeman_after_forged_mnb_iff forged
  · intro env env' state mnp vchSig forged signed
    exact state.mnodeman_after_forged_mnp_iff forged signed
  · intro env env' state vote vchMasterNodeSignature forged signed
    exact SwiftState.votesFor_after_forged_iff state forged signed

/-! ## A copy of each kind -/

namespace ForgedCopies

/-- A node that knows one proposal and one finalized budget. -/
def tables : BudgetTables where
  proposals :=
    { items := (∅ : Std.ExtTreeMap Uint256 _).insert 9 BudgetTables.plainProposal }
  finalizedBudgets :=
    { items := (∅ : Std.ExtTreeMap Uint256 CFinalizedBudget).insert 8 ⟨21600, [], ∅⟩ }

/-- The vote of a masternode for the finalized budget. -/
def finalizedVote : CFinalizedBudgetVote where
  vin := { prevout := ⟨1000, 0⟩ }
  nBudgetHash := 8
  nTime := 1599990000
  vchSig := [0, 1]

/-- Sums in the place of hashes. -/
def sumHashes : MasternodeHashes where
  broadcast sigTime key := BitVec.ofInt 256 sigTime + BitVec.ofNat 256 key.length
  ping vin sigTime := vin.prevout.hash + BitVec.ofInt 256 sigTime

/-- A node at height 500 that knows the block at height 490 and accepts every
collateral. -/
def announcing : MasternodeEnv where
  node := { NodeContext.mainNode 500 with
    mapBlockIndex := fun hash => if hash = 490 then some ⟨490, 490⟩ else none
    scriptForKey := fun key => key ++ List.replicate (25 - key.length) 0 }
  txinText txin := toString txin.prevout.hash.toNat
  hashText hash := toString hash.toNat
  addrText addr := toString addr.port.toNat
  keyText key := toString key.length
  isVinAssociatedWithPubkey _ _ := true
  activeMasternode := none
  getInputAge _ := 100
  confirmationTime _ := none
  collateralValue _ := 1000 * COIN

/-- The ping of the first masternode. -/
def ping : CMasternodePing where
  vin := { prevout := ⟨1000, 0⟩ }
  blockHash := 490
  sigTime := 1599999900
  vchSig := [0, 1]

/-- The announcement of the first masternode. -/
def announcement : CMasternodeBroadcast where
  vin := { prevout := ⟨1000, 0⟩ }
  addr := ⟨[127, 0, 0, 1], 40444⟩
  pubKeyCollateralAddress := [0]
  pubKeyMasternode := [0, 1]
  sig := [0]
  sigTime := 1599999000
  protocolVersion := 70720
  lastPing := ping

/-- A list with the first masternode, whose last ping is a while ago. -/
def oneMasternode : MasternodeTables where
  mnodeman := ⟨[{ CMasternode.enabledNode 0 (1000 * COIN) with
    lastPing := { blockHash := 1, sigTime := 1599990000 } }]⟩

theorem ping_isSigned : ping.IsSigned announcing oneMasternode.mnodeman := by
  intro pmn found
  cases found
  decide

theorem forged_ping (pmn : CMasternode) (found : oneMasternode.mnodeman.find ping.vin = some pmn) :
    CMasternodePing.verifySignature announcing { ping with vchSig := [7] }
      pmn.pubKeyMasternode = false := by
  cases found
  decide

/-- Each kind of message, with a copy that is signed `7`. -/
theorem forged_copy_instances :
    ((((tables.processMvote BudgetTables.sumHashes BudgetTables.votingEnv
          (BudgetTables.voteOf 0 [7])).processMvote BudgetTables.sumHashes BudgetTables.votingEnv
            (BudgetTables.voteOf 0 [0, 1])).proposals.items =
        (tables.processMvote BudgetTables.sumHashes BudgetTables.votingEnv
          (BudgetTables.voteOf 0 [0, 1])).proposals.items) ↔ False) ∧
    ((((tables.processFbvote BudgetTables.sumHashes BudgetTables.votingEnv
          { finalizedVote with vchSig := [7] }).processFbvote BudgetTables.sumHashes
            BudgetTables.votingEnv finalizedVote).finalizedBudgets.items =
        (tables.processFbvote BudgetTables.sumHashes BudgetTables.votingEnv
          finalizedVote).finalizedBudgets.items) ↔ False) ∧
    (((((⟨⟨[]⟩, ∅, ∅⟩ : MasternodeTables).processMnb sumHashes announcing
          { announcement with sig := [7] }).processMnb sumHashes announcing
            announcement).mnodeman =
        ((⟨⟨[]⟩, ∅, ∅⟩ : MasternodeTables).processMnb sumHashes announcing
          announcement).mnodeman) ↔ False) ∧
    ((((oneMasternode.processMnp sumHashes announcing { ping with vchSig := [7] }).processMnp
          sumHashes announcing ping).mnodeman =
        (oneMasternode.processMnp sumHashes announcing ping).mnodeman) ↔ False) ∧
    ((SwiftState.votesFor ((({} : SwiftState).processTxlvote (SwiftState.swiftEnv true 1600000000)
          { SwiftState.swiftVote 5 0 with vchMasterNodeSignature := [7] }).processTxlvote
            (SwiftState.swiftEnv true 1600000000) (SwiftState.swiftVote 5 0)).mapTxLocks =
        SwiftState.votesFor (({} : SwiftState).processTxlvote
          (SwiftState.swiftEnv true 1600000000) (SwiftState.swiftVote 5 0)).mapTxLocks) ↔
      False) := by
  obtain ⟨mvote, fbvote, mnb, mnp, txlvote⟩ :=
    forged_copy_harmless_iff BudgetTables.sumHashes sumHashes
  refine ⟨?_, ?_, ?_, ?_, ?_⟩
  · refine (mvote _ _ tables (BudgetTables.voteOf 0 [0, 1]) [7] (by decide) (by decide)).trans ?_
    exact iff_of_false (not_not_intro ⟨by decide, by decide, by decide⟩) id
  · refine (fbvote _ _ tables finalizedVote [7] (by decide) (by decide)).trans ?_
    exact iff_of_false (not_not_intro ⟨by decide, by decide, by decide⟩) id
  · refine (mnb _ _ _ announcement [7] (by decide)).trans ?_
    exact iff_of_false (not_not_intro ⟨by decide, by decide, by decide, by decide⟩) id
  · refine (mnp _ _ oneMasternode ping [7] forged_ping ping_isSigned).trans ?_
    exact iff_of_false (not_not_intro ⟨by decide, by decide, by decide, by decide⟩) id
  · refine (txlvote _ _ {} (SwiftState.swiftVote 5 0) [7] (by decide) (by decide)).trans ?_
    exact iff_of_false (not_not_intro ⟨by decide, by decide, by decide, by decide⟩) id

/-- In each of the five handlers, a forged copy can keep a signed message from having
its effect. -/
theorem forged_copy_harmful :
    (¬ ∀ (hashes : BudgetHashes) (env : BudgetEnv) (tables : BudgetTables) (vote : CBudgetVote)
      (vchSig : List UInt8), env.signatureValid { vote with vchSig } = false →
      env.signatureValid vote = true →
      ((tables.processMvote hashes env { vote with vchSig }).processMvote hashes env
        vote).proposals.items = (tables.processMvote hashes env vote).proposals.items) ∧
    (¬ ∀ (hashes : BudgetHashes) (env : BudgetEnv) (tables : BudgetTables)
      (vote : CFinalizedBudgetVote) (vchSig : List UInt8),
      env.signatureValid { vote with vchSig } = false → env.signatureValid vote = true →
      ((tables.processFbvote hashes env { vote with vchSig }).processFbvote hashes env
          vote).finalizedBudgets.items =
        (tables.processFbvote hashes env vote).finalizedBudgets.items) ∧
    (¬ ∀ (hashes : MasternodeHashes) (env : MasternodeEnv) (state : MasternodeTables)
      (mnb : CMasternodeBroadcast) (sig : List UInt8),
      CMasternodeBroadcast.verifySignature env { mnb with sig } = false →
      mnb.verifySignature env = true →
      ((state.processMnb hashes env { mnb with sig }).processMnb hashes env mnb).mnodeman =
        (state.processMnb hashes env mnb).mnodeman) ∧
    (¬ ∀ (hashes : MasternodeHashes) (env : MasternodeEnv) (state : MasternodeTables)
      (mnp : CMasternodePing) (vchSig : List UInt8),
      (∀ pmn, state.mnodeman.find mnp.vin = some pmn →
        CMasternodePing.verifySignature env { mnp with vchSig } pmn.pubKeyMasternode = false) →
      mnp.IsSigned env state.mnodeman →
      ((state.processMnp hashes env { mnp with vchSig }).processMnp hashes env mnp).mnodeman =
        (state.processMnp hashes env mnp).mnodeman) ∧
    ¬ ∀ (env : SwiftEnv) (state : SwiftState) (vote : CConsensusVote)
      (vchMasterNodeSignature : List UInt8),
      SwiftState.signatureValid env env.mnodeman { vote with vchMasterNodeSignature } = false →
      SwiftState.signatureValid env env.mnodeman vote = true →
      SwiftState.votesFor ((state.processTxlvote env
          { vote with vchMasterNodeSignature }).processTxlvote env vote).mapTxLocks =
        SwiftState.votesFor (state.processTxlvote env vote).mapTxLocks := by
  refine ⟨?_, ?_, ?_, ?_, ?_⟩
  · intro harmless
    have forged : BudgetTables.votingEnv.signatureValid (BudgetTables.voteOf 0 [7]) = false := by
      decide
    have signed : BudgetTables.votingEnv.signatureValid (BudgetTables.voteOf 0 [0, 1]) = true := by
      decide
    have same := harmless BudgetTables.sumHashes BudgetTables.votingEnv tables
      (BudgetTables.voteOf 0 [0, 1]) [7] forged signed
    have harmlessHere := (VoteTable.items_after_forged_iff BudgetTables.sumHashes
      tables.proposals (BudgetTables.voteOf 0 [0, 1]) (BudgetTables.voteOf 0 [7]) rfl forged
      signed).mp same
    exact harmlessHere ⟨by decide, by decide, by decide⟩
  · intro harmless
    have forged : BudgetTables.votingEnv.signatureValid
        { finalizedVote with vchSig := [7] } = false := by decide
    have signed : BudgetTables.votingEnv.signatureValid finalizedVote = true := by decide
    have same := harmless BudgetTables.sumHashes BudgetTables.votingEnv tables finalizedVote [7]
      forged signed
    have harmlessHere := (VoteTable.items_after_forged_iff BudgetTables.sumHashes
      tables.finalizedBudgets finalizedVote { finalizedVote with vchSig := [7] } rfl forged
      signed).mp same
    exact harmlessHere ⟨by decide, by decide, by decide⟩
  · intro harmless
    have same := harmless sumHashes announcing ⟨⟨[]⟩, ∅, ∅⟩ announcement [7] (by decide)
      (by decide)
    have harmlessHere := (MasternodeTables.mnodeman_after_forged_mnb_iff _ (by decide)).mp same
    exact harmlessHere ⟨by decide, by decide, by decide, by decide⟩
  · intro harmless
    have same := harmless sumHashes announcing oneMasternode ping [7] forged_ping ping_isSigned
    have harmlessHere := (oneMasternode.mnodeman_after_forged_mnp_iff forged_ping
      ping_isSigned).mp same
    exact harmlessHere ⟨by decide, by decide, by decide, by decide⟩
  · intro harmless
    have same := harmless (SwiftState.swiftEnv true 1600000000) {} (SwiftState.swiftVote 5 0) [7]
      (by decide) (by decide)
    have harmlessHere := (SwiftState.votesFor_after_forged_iff {} (by decide)
      (by decide)).mp same
    exact harmlessHere ⟨by decide, by decide, by decide, by decide⟩

end ForgedCopies

end GiantCore
