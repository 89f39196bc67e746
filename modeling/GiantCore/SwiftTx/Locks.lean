import GiantCore.Foundation.Run
import GiantCore.SwiftTx.SwiftTx

/-! # What a SwiftTX lock stands for

Facts about the operations on the maps, and three questions about whole runs of
requests, votes and cleanings. An input is locked for a complete lock, unless a
request that the memory pool refused has locked it. The cleaner frees exactly the
inputs of expired transactions, unless a refused request has locked inputs or two
requests share one. And no vote is counted twice.
-/

namespace GiantCore

open GiantCore.Foundation.Run

namespace SwiftState

/-! ## The operations -/

section

variable (env : SwiftEnv) (state : SwiftState)

/-- Which inputs are locked, and for whom. -/
theorem lockInputs_eq (locked : COutPoint → Option Uint256) (txHash : Uint256) (vin : List CTxIn)
    (out : COutPoint) :
    lockInputs locked txHash vin out =
      if locked out = none ∧ out ∈ vin.map CTxIn.prevout then some txHash else locked out := by
  induction vin generalizing locked with
  | nil => simp [lockInputs]
  | cons txin rest ih =>
      rw [lockInputs, ih]
      by_cases same : out = txin.prevout
      · subst same
        cases taken : locked txin.prevout with
        | none => simp
        | some other => simp [taken]
      · have kept : (if (locked txin.prevout).isNone then
            Function.update locked txin.prevout (some txHash) else locked) out = locked out := by
          split
          · exact Function.update_of_ne same _ _
          · rfl
        simp only [kept, List.map_cons, List.mem_cons, same, false_or]

/-- Only the expiration of one lock changes. -/
@[simp] theorem getElem?_expire (txHash key : Uint256) :
    (state.expire env txHash).mapTxLocks[key]? =
      state.mapTxLocks[key]?.map fun lock =>
        if key = txHash then { lock with nExpiration := storeInt env.node.time } else lock := by
  unfold expire
  simp only [Std.ExtTreeMap.getElem?_modify, Std.LawfulEqCmp.compare_eq_iff_eq]
  by_cases same : txHash = key
  · subst same
    simp
  · have different : ¬ key = txHash := fun equal => same equal.symm
    simp [same, different]

end

/-- Two tables of locks that differ in heights and expirations, and in locks without
votes. -/
structure LocksKept (before after : Std.ExtTreeMap Uint256 CTransactionLock) : Prop where
  stays : ∀ {key : Uint256} {lock}, before[key]? = some lock → ∃ later, after[key]? = some later ∧
    later.vecConsensusVotes = lock.vecConsensusVotes ∧ later.txHash = lock.txHash
  new : ∀ {key : Uint256} {lock}, before[key]? = none → after[key]? = some lock →
    lock.vecConsensusVotes = [] ∧ lock.txHash = key

namespace LocksKept

variable {before middle after : Std.ExtTreeMap Uint256 CTransactionLock}

/-- The locks stay as they are. -/
theorem refl (locks : Std.ExtTreeMap Uint256 CTransactionLock) : LocksKept locks locks where
  stays found := ⟨_, found, rfl, rfl⟩
  new absent found := by
    rw [absent] at found
    cases found

/-- One step of keeping the locks after another. -/
theorem trans (first : LocksKept before middle) (second : LocksKept middle after) :
    LocksKept before after where
  stays found := by
    obtain ⟨later, there, votes, hash⟩ := first.stays found
    obtain ⟨last, here, moreVotes, moreHash⟩ := second.stays there
    exact ⟨last, here, moreVotes.trans votes, moreHash.trans hash⟩
  new {key lock} absent found := by
    cases between : middle[key]? with
    | none => exact second.new between found
    | some later =>
        obtain ⟨last, here, votes, hash⟩ := second.stays between
        rw [found] at here
        cases here
        obtain ⟨none, same⟩ := first.new absent between
        exact ⟨votes.trans none, hash.trans same⟩

/-- A lock after the change was there before, or has no votes. -/
theorem back (kept : LocksKept before after) {key : Uint256} {lock : CTransactionLock}
    (found : after[key]? = some lock) :
    (∃ earlier, before[key]? = some earlier ∧
      lock.vecConsensusVotes = earlier.vecConsensusVotes ∧ lock.txHash = earlier.txHash) ∨
      (before[key]? = none ∧ lock.vecConsensusVotes = [] ∧ lock.txHash = key) := by
  cases between : before[key]? with
  | none => exact Or.inr ⟨rfl, kept.new between found⟩
  | some earlier =>
      obtain ⟨later, there, votes, hash⟩ := kept.stays between
      rw [found] at there
      cases there
      exact Or.inl ⟨earlier, rfl, votes, hash⟩

end LocksKept

section

variable (env : SwiftEnv) (state : SwiftState)

/-- Letting a lock expire keeps all locks. -/
theorem locksKept_expire (txHash : Uint256) :
    LocksKept state.mapTxLocks (state.expire env txHash).mapTxLocks where
  stays {key lock} found := by
    rw [getElem?_expire, found, Option.map_some]
    refine ⟨_, rfl, ?_, ?_⟩
    · split <;> rfl
    · split <;> rfl
  new {key lock} absent found := by
    rw [getElem?_expire, absent] at found
    cases found

/-- `CreateNewLock` changes nothing but the table of locks. -/
theorem createNewLock_eq (tx : CTransaction) :
    ∃ mapTxLocks, (state.createNewLock env tx).1 = { state with mapTxLocks } ∧
      LocksKept state.mapTxLocks mapTxLocks := by
  unfold createNewLock
  split
  · exact ⟨_, rfl, LocksKept.refl _⟩
  · refine ⟨_, rfl, ?_, ?_⟩
    · intro key lock found
      simp only [Std.ExtTreeMap.getElem?_insert, Std.LawfulEqCmp.compare_eq_iff_eq]
      split
      · rename_i same
        subst same
        rw [found]
        exact ⟨_, rfl, rfl, rfl⟩
      · exact ⟨lock, found, rfl, rfl⟩
    · intro key lock absent found
      simp only [Std.ExtTreeMap.getElem?_insert, Std.LawfulEqCmp.compare_eq_iff_eq] at found
      split at found
      · rename_i same
        subst same
        rw [absent] at found
        cases found
        exact ⟨rfl, rfl⟩
      · rw [absent] at found
        cases found

/-- `DoConsensusVote` may remember a vote, and that is all. -/
theorem doConsensusVote_eq (tx : CTransaction) (nBlockHeight : Int) :
    state.doConsensusVote env tx nBlockHeight = state ∨
      ∃ ctx : CConsensusVote, state.doConsensusVote env tx nBlockHeight =
        { state with mapTxLockVote := state.mapTxLockVote.insert ctx.getHash ctx } := by
  unfold doConsensusVote
  split
  · exact Or.inl rfl
  · simp only
    split
    · exact Or.inl rfl
    · split
      · exact Or.inl rfl
      · split
        · exact Or.inl rfl
        · exact Or.inr ⟨_, rfl⟩

/-- `CheckForConflictingLocks` changes expirations only, and reports whether an input
is locked for another transaction. -/
theorem checkForConflictingLocks_eq (tx : CTransaction) :
    ∃ mapTxLocks, (state.checkForConflictingLocks env tx).1 = { state with mapTxLocks } ∧
      LocksKept state.mapTxLocks mapTxLocks ∧
      (∀ {key : Uint256} {lock}, state.mapTxLocks[key]? = some lock → ∃ nExpiration,
        mapTxLocks[key]? = some { lock with nExpiration }) ∧
      ((state.checkForConflictingLocks env tx).2 = false ↔
        ∀ out ∈ tx.vin.map CTxIn.prevout, ∀ other, state.mapLockedInputs out = some other →
          other = tx.hash) := by
  unfold checkForConflictingLocks
  split
  · rename_i free
    refine ⟨state.mapTxLocks, rfl, LocksKept.refl _, ?_, ?_⟩
    · intro key lock found
      exact ⟨lock.nExpiration, found⟩
    · simp only [true_iff]
      intro out member other taken
      obtain ⟨txin, input, rfl⟩ := List.mem_map.mp member
      have none := List.findSome?_eq_none_iff.mp free txin input
      rw [taken, Option.filter_some] at none
      by_contra different
      simp [different] at none
  · rename_i other taken
    refine ⟨((state.expire env tx.hash).expire env other).mapTxLocks, rfl,
      (locksKept_expire env state tx.hash).trans (locksKept_expire env _ other), ?_, ?_⟩
    · intro key lock found
      rw [getElem?_expire, getElem?_expire, found, Option.map_some, Option.map_some]
      split <;> split <;> exact ⟨_, rfl⟩
    · simp only [Bool.true_eq_false, false_iff]
      intro own
      obtain ⟨txin, input, found⟩ := List.exists_of_findSome?_eq_some taken
      obtain ⟨here, different⟩ := Option.filter_eq_some_iff.mp found
      exact absurd (own _ (List.mem_map_of_mem input) other here) (by simpa using different)

/-- Tracking a voter changes the table of unknown votes only. -/
theorem trackUnknownVote_eq (ctx : CConsensusVote) :
    ∃ mapUnknownVotes, state.trackUnknownVote env ctx = { state with mapUnknownVotes } := by
  unfold trackUnknownVote
  split
  · simp only
    split
    · exact ⟨_, rfl⟩
    · exact ⟨_, rfl⟩
  · exact ⟨_, rfl⟩

/-- `completeLock` changes expirations, makes sure of a request, and locks the inputs
of the request, if it locks any. -/
theorem completeLock_eq (txHash : Uint256) :
    ∃ mapTxLocks mapLockedInputs,
      state.completeLock env txHash =
        { state with
          mapTxLockReq := state.mapTxLockReq.insertIfNew txHash CTransaction.empty
          mapTxLocks
          mapLockedInputs } ∧
      LocksKept state.mapTxLocks mapTxLocks ∧
      (∀ {key : Uint256} {lock}, state.mapTxLocks[key]? = some lock → ∃ nExpiration,
        mapTxLocks[key]? = some { lock with nExpiration }) ∧
      ∀ out, mapLockedInputs out = state.mapLockedInputs out ∨
        mapLockedInputs out = some txHash ∧ state.mapLockedInputs out = none ∧
          ∃ tx, state.mapTxLockReq[txHash]? = some tx ∧ out ∈ tx.vin.map CTxIn.prevout := by
  obtain ⟨mapTxLocks, same, kept, dates, -⟩ := checkForConflictingLocks_eq env
    { state with mapTxLockReq := state.mapTxLockReq.insertIfNew txHash CTransaction.empty }
    (state.mapTxLockReq[txHash]?.getD CTransaction.empty)
  unfold completeLock
  simp only [same]
  split
  · refine ⟨mapTxLocks, _, rfl, kept, dates, ?_⟩
    intro out
    rw [lockInputs_eq]
    split
    · rename_i free
      refine Or.inr ⟨rfl, free.1, ?_⟩
      cases found : state.mapTxLockReq[txHash]? with
      | none =>
          rw [found] at free
          exact absurd free.2 (by simp [CTransaction.empty])
      | some tx =>
          rw [found] at free
          exact ⟨tx, rfl, free.2⟩
    · exact Or.inl rfl
  · exact ⟨mapTxLocks, _, rfl, kept, dates, fun out => Or.inl rfl⟩

/-- A vote that is taken comes from a masternode of the top ten, and is signed. -/
def Accepts (ctx : CConsensusVote) : Prop :=
  1 ≤ (rank env ctx.vinMasternode ctx.nBlockHeight).2 ∧
    (rank env ctx.vinMasternode ctx.nBlockHeight).2 ≤ swiftTxSignaturesTotal ∧
    signatureValid env (rank env ctx.vinMasternode ctx.nBlockHeight).1 ctx = true

/-- A masternode that is ranked has a positive rank. -/
theorem rank_pos {vinMasternode : CTxIn} {nBlockHeight : Int}
    (ranked : (rank env vinMasternode nBlockHeight).2 ≠ -1) :
    1 ≤ (rank env vinMasternode nBlockHeight).2 := by
  unfold rank CMasternodeMan.getMasternodeRank at ranked ⊢
  cases known : env.node.getBlockHash nBlockHeight with
  | none =>
      rw [known] at ranked
      exact absurd rfl ranked
  | some hash =>
      rw [known] at ranked
      simp only at ranked ⊢
      revert ranked
      generalize List.findIdx? _ _ = position
      intro ranked
      cases position with
      | none => exact absurd rfl ranked
      | some index =>
          simp only [Option.elim_some]
          omega

/-- A vote is counted or refused. -/
theorem processConsensusVote_eq (ctx : CConsensusVote) :
    (Accepts env ctx ∧ state.processConsensusVote env ctx = (state.countVote env ctx, true)) ∨
      (¬ Accepts env ctx ∧ state.processConsensusVote env ctx = (state, false)) := by
  unfold processConsensusVote
  simp only
  split
  · rename_i unranked
    refine Or.inr ⟨?_, rfl⟩
    intro accepted
    have positive := accepted.1
    omega
  · rename_i ranked
    split
    · rename_i low
      refine Or.inr ⟨?_, rfl⟩
      intro accepted
      have high := accepted.2.1
      omega
    · rename_i high
      split
      · rename_i unsigned
        refine Or.inr ⟨?_, rfl⟩
        intro accepted
        rw [accepted.2.2] at unsigned
        cases unsigned
      · rename_i signed
        refine Or.inl ⟨⟨rank_pos env ranked, by omega, ?_⟩, rfl⟩
        simpa using signed

/-- What a `txlvote` message does. -/
theorem processTxlvote_cases (ctx : CConsensusVote) :
    ((handles env = false ∨ state.mapTxLockVote.contains ctx.getHash = true) ∧
        state.processTxlvote env ctx = state) ∨
      (handles env = true ∧ state.mapTxLockVote.contains ctx.getHash = false ∧
        let seen := { state with mapTxLockVote := state.mapTxLockVote.insert ctx.getHash ctx }
        (¬ Accepts env ctx ∧ state.processTxlvote env ctx = seen) ∨
          (Accepts env ctx ∧ ∃ mapUnknownVotes, state.processTxlvote env ctx =
            { seen.countVote env ctx with mapUnknownVotes })) := by
  unfold processTxlvote
  split
  · rename_i handled
    split
    · rename_i seen
      exact Or.inl ⟨Or.inr seen, rfl⟩
    · rename_i new
      refine Or.inr ⟨handled, Bool.not_eq_true _ ▸ new, ?_⟩
      simp only
      rcases processConsensusVote_eq env
          { state with mapTxLockVote := state.mapTxLockVote.insert ctx.getHash ctx } ctx with
        ⟨accepted, same⟩ | ⟨refused, same⟩
      · rw [same]
        obtain ⟨mapUnknownVotes, tracked⟩ := trackUnknownVote_eq env
          (countVote env
            { state with mapTxLockVote := state.mapTxLockVote.insert ctx.getHash ctx } ctx) ctx
        exact Or.inr ⟨accepted, mapUnknownVotes, tracked⟩
      · rw [same]
        exact Or.inl ⟨refused, rfl⟩
  · rename_i unhandled
    exact Or.inl ⟨Or.inl (Bool.not_eq_true _ ▸ unhandled), rfl⟩

/-- The lock of a transaction has enough votes. -/
def IsComplete (state : SwiftState) (txHash : Uint256) : Prop :=
  ∃ lock, state.mapTxLocks[txHash]? = some lock ∧
    swiftTxSignaturesRequired ≤ lock.countSignatures

/-- The votes overrule the memory pool: the lock is complete and no input is locked
for another transaction. -/
def OverrulesPool (state : SwiftState) (tx : CTransaction) : Prop :=
  state.IsComplete tx.hash ∧ ∀ out ∈ tx.vin.map CTxIn.prevout, ∀ other,
    state.mapLockedInputs out = some other → other = tx.hash

/-- A refused request becomes a request like an accepted one if the votes overrule the
memory pool. -/
theorem rejectRequest_eq (tx : CTransaction) :
    ∃ mapTxLocks mapTxLockReq,
      state.rejectRequest env tx = { state.recordRejection tx with mapTxLocks, mapTxLockReq } ∧
      LocksKept state.mapTxLocks mapTxLocks ∧
      (∀ {key : Uint256} {lock}, state.mapTxLocks[key]? = some lock → ∃ nExpiration,
        mapTxLocks[key]? = some { lock with nExpiration }) ∧
      (mapTxLockReq = state.mapTxLockReq ∧ ¬ state.OverrulesPool tx ∨
        mapTxLockReq = state.mapTxLockReq.insertIfNew tx.hash tx ∧ state.OverrulesPool tx) := by
  have locks : (state.recordRejection tx).mapTxLocks = state.mapTxLocks := rfl
  obtain ⟨mapTxLocks, same, kept, dates, free⟩ :=
    checkForConflictingLocks_eq env (state.recordRejection tx) tx
  -- the inputs that the refusal locks are locked for the transaction itself
  have own : (∀ out ∈ tx.vin.map CTxIn.prevout, ∀ other,
      (state.recordRejection tx).mapLockedInputs out = some other → other = tx.hash) ↔
        ∀ out ∈ tx.vin.map CTxIn.prevout, ∀ other, state.mapLockedInputs out = some other →
          other = tx.hash := by
    apply forall₂_congr
    intro out member
    simp only [recordRejection, lockInputs_eq, member, and_true]
    cases state.mapLockedInputs out with
    | none => simp
    | some other => simp
  unfold rejectRequest
  simp only [locks]
  cases found : state.mapTxLocks[tx.hash]? with
  | none =>
      refine ⟨_, _, rfl, LocksKept.refl _, fun here => ⟨_, here⟩, Or.inl ⟨rfl, ?_⟩⟩
      intro ⟨⟨lock, there, _⟩, _⟩
      rw [found] at there
      cases there
  | some lock =>
      simp only
      split
      · rename_i complete
        cases conflict : ((state.recordRejection tx).checkForConflictingLocks env tx).2 with
        | false =>
            refine ⟨mapTxLocks, state.mapTxLockReq.insertIfNew tx.hash tx, ?_, kept, dates,
              Or.inr ⟨rfl, ⟨lock, found, complete⟩, own.mp (free.mp conflict)⟩⟩
            rw [same]
            rfl
        | true =>
            refine ⟨mapTxLocks, state.mapTxLockReq, ?_, kept, dates, Or.inl ⟨rfl, ?_⟩⟩
            · rw [same]
              rfl
            · intro overruled
              rw [free.mpr (own.mpr overruled.2)] at conflict
              cases conflict
      · rename_i incomplete
        refine ⟨_, _, rfl, LocksKept.refl _, fun here => ⟨_, here⟩, Or.inl ⟨rfl, ?_⟩⟩
        intro ⟨⟨other, there, complete⟩, _⟩
        rw [found] at there
        cases there
        exact incomplete complete

/-- What an `ix` message does. -/
theorem processIx_cases (tx : CTransaction) :
    state.processIx env tx = state ∨
      (state.considers env tx = true ∧
        let locked := (state.createNewLock env tx).1
        (locked.acceptToMemoryPool env tx = true ∧ ∃ mapTxLockVote,
            (mapTxLockVote = state.mapTxLockVote ∨ ∃ ctx : CConsensusVote,
              mapTxLockVote = state.mapTxLockVote.insert ctx.getHash ctx) ∧
            state.processIx env tx =
              { locked with
                mapTxLockVote
                mapTxLockReq := state.mapTxLockReq.insertIfNew tx.hash tx }) ∨
          (locked.acceptToMemoryPool env tx = false ∧
            state.processIx env tx = locked.rejectRequest env tx)) := by
  obtain ⟨mapTxLocks, same, -⟩ := createNewLock_eq env state tx
  unfold processIx
  split
  · rename_i considered
    refine Or.inr ⟨considered, ?_⟩
    simp only
    split
    · rename_i accepted
      refine Or.inl ⟨accepted, ?_⟩
      rw [same]
      rcases doConsensusVote_eq env { state with mapTxLocks } tx
          (state.createNewLock env tx).2 with unchanged | ⟨ctx, voted⟩
      · rw [unchanged]
        exact ⟨_, Or.inl rfl, rfl⟩
      · rw [voted]
        exact ⟨_, Or.inr ⟨ctx, rfl⟩, rfl⟩
    · rename_i refused
      exact Or.inr ⟨Bool.not_eq_true _ ▸ refused, rfl⟩
  · exact Or.inl rfl

end

/-! ## Cleaning -/

section

variable (now : Int) (state : SwiftState) (it : Uint256 × CTransactionLock)

/-- A lock of a transaction that the cleaner removes. -/
def removes (now : Int) (key : Uint256) (it : Uint256 × CTransactionLock) : Bool :=
  it.1 = key && now > it.2.nExpiration

/-- A lock whose removal frees an input. -/
def frees (now : Int) (requests : Std.ExtTreeMap Uint256 CTransaction) (out : COutPoint)
    (it : Uint256 × CTransactionLock) : Bool :=
  now > it.2.nExpiration && requests[it.1]?.any fun tx => out ∈ tx.vin.map CTxIn.prevout

/-- A lock whose removal makes the node forget a vote. -/
def forgets (now : Int) (hash : Uint256) (it : Uint256 × CTransactionLock) : Bool :=
  now > it.2.nExpiration && it.2.vecConsensusVotes.any fun v => v.getHash = hash

/-- The votes that are left when a list of votes is forgotten. -/
theorem getElem?_foldl_erase (votes : List CConsensusVote)
    (table : Std.ExtTreeMap Uint256 CConsensusVote) (hash : Uint256) :
    (votes.foldl (fun table (v : CConsensusVote) => table.erase v.getHash) table)[hash]? =
      if votes.any fun v => v.getHash = hash then none else table[hash]? := by
  induction votes generalizing table with
  | nil => rfl
  | cons vote rest ih =>
      rw [List.foldl_cons, ih, Std.ExtTreeMap.getElem?_erase, List.any_cons]
      simp only [Std.LawfulEqCmp.compare_eq_iff_eq]
      by_cases same : vote.getHash = hash
      · simp [same]
      · simp [same]

section

variable (lock : CTransactionLock)

/-- Releasing a request keeps the locks. -/
theorem mapTxLocks_releaseRequest :
    (state.releaseRequest lock).mapTxLocks = state.mapTxLocks := by
  unfold releaseRequest
  split <;> rfl

/-- The request of the lock goes, and no other. -/
theorem getElem?_mapTxLockReq_releaseRequest (key : Uint256) :
    (state.releaseRequest lock).mapTxLockReq[key]? =
      if lock.txHash = key then none else state.mapTxLockReq[key]? := by
  unfold releaseRequest
  split
  · rename_i absent
    split
    · rename_i same
      rw [← same, absent]
    · rfl
  · simp only [Std.ExtTreeMap.getElem?_erase, Std.LawfulEqCmp.compare_eq_iff_eq]

/-- The inputs of the request are free, and no others. -/
theorem mapLockedInputs_releaseRequest (out : COutPoint) :
    (state.releaseRequest lock).mapLockedInputs out =
      if state.mapTxLockReq[lock.txHash]?.any fun tx => out ∈ tx.vin.map CTxIn.prevout then none
      else state.mapLockedInputs out := by
  unfold releaseRequest
  split
  · rename_i absent
    simp [absent]
  · rename_i tx found
    simp [found]

/-- Votes of other locks stay known. -/
theorem getElem?_mapTxLockVote_releaseRequest (hash : Uint256)
    (other : lock.vecConsensusVotes.any (fun v => v.getHash = hash) = false) :
    (state.releaseRequest lock).mapTxLockVote[hash]? = state.mapTxLockVote[hash]? := by
  unfold releaseRequest
  split
  · rfl
  · simp only [getElem?_foldl_erase, other, Bool.false_eq_true, ↓reduceIte]

end

section

variable {now state it}

/-- Cleaning a lock removes it if it has expired. -/
theorem getElem?_mapTxLocks_cleanLock (key : Uint256) :
    (state.cleanLock now it).mapTxLocks[key]? =
      if removes now key it then none else state.mapTxLocks[key]? := by
  unfold cleanLock
  by_cases expired : now > it.2.nExpiration
  · simp [expired, removes, mapTxLocks_releaseRequest, Std.ExtTreeMap.getElem?_erase]
  · simp [expired, removes]

/-- With the lock its request goes. -/
theorem getElem?_mapTxLockReq_cleanLock (keyed : it.2.txHash = it.1) (key : Uint256) :
    (state.cleanLock now it).mapTxLockReq[key]? =
      if removes now key it then none else state.mapTxLockReq[key]? := by
  unfold cleanLock
  by_cases expired : now > it.2.nExpiration
  · simp [expired, removes, getElem?_mapTxLockReq_releaseRequest, keyed]
  · simp [expired, removes]

/-- With the lock its inputs are free. -/
theorem mapLockedInputs_cleanLock_eq (keyed : it.2.txHash = it.1) (out : COutPoint) :
    (state.cleanLock now it).mapLockedInputs out =
      if frees now state.mapTxLockReq out it then none else state.mapLockedInputs out := by
  unfold cleanLock
  by_cases expired : now > it.2.nExpiration
  · simp [expired, frees, mapLockedInputs_releaseRequest, keyed]
  · simp [expired, frees]

/-- Votes that are not of the lock stay known. -/
theorem getElem?_mapTxLockVote_cleanLock {hash : Uint256} (kept : forgets now hash it = false) :
    (state.cleanLock now it).mapTxLockVote[hash]? = state.mapTxLockVote[hash]? := by
  unfold cleanLock
  split
  · rename_i expired
    apply getElem?_mapTxLockVote_releaseRequest
    simpa [forgets, expired] using kept
  · rfl

/-- The other locks find their requests as they were. -/
theorem any_frees_cleanLock {rest : List (Uint256 × CTransactionLock)}
    (keyed : it.2.txHash = it.1) (new : it.1 ∉ rest.map Prod.fst) (out : COutPoint) :
    rest.any (frees now (state.cleanLock now it).mapTxLockReq out) =
      rest.any (frees now state.mapTxLockReq out) := by
  rw [Bool.eq_iff_iff, List.any_eq_true, List.any_eq_true]
  apply exists_congr
  intro other
  apply and_congr_right
  intro member
  have different : removes now other.1 it = false := by
    have apart : it.1 ≠ other.1 := fun same => new (same ▸ List.mem_map_of_mem member)
    simp [removes, apart]
  simp only [frees, getElem?_mapTxLockReq_cleanLock keyed, different, Bool.false_eq_true,
    if_false]

end

/-- What the loop of the cleaner leaves, if each lock is filed under its own
transaction. -/
theorem foldl_cleanLock {entries : List (Uint256 × CTransactionLock)}
    (distinct : (entries.map Prod.fst).Nodup) (keyed : ∀ it ∈ entries, it.2.txHash = it.1) :
    let final := entries.foldl (fun state it => cleanLock state now it) state
    (∀ key : Uint256, final.mapTxLocks[key]? =
        if entries.any (removes now key) then none
        else state.mapTxLocks[key]?) ∧
      (∀ key : Uint256, final.mapTxLockReq[key]? =
        if entries.any (removes now key) then none
        else state.mapTxLockReq[key]?) ∧
      (∀ out, final.mapLockedInputs out =
        if entries.any (frees now state.mapTxLockReq out) then none
        else state.mapLockedInputs out) ∧
      ∀ hash : Uint256, entries.any (forgets now hash) = false →
        final.mapTxLockVote[hash]? = state.mapTxLockVote[hash]? := by
  induction entries generalizing state with
  | nil => exact ⟨fun _ => rfl, fun _ => rfl, fun _ => rfl, fun _ _ => rfl⟩
  | cons it rest ih =>
      rw [List.map_cons, List.nodup_cons] at distinct
      rw [List.forall_mem_cons] at keyed
      obtain ⟨locks, requests, inputs, votes⟩ :=
        ih (state.cleanLock now it) distinct.2 keyed.2
      refine ⟨?_, ?_, ?_, ?_⟩
      · intro key
        rw [List.foldl_cons, locks key, getElem?_mapTxLocks_cleanLock, List.any_cons]
        cases rest.any (removes now key) <;> simp
      · intro key
        rw [List.foldl_cons, requests key, getElem?_mapTxLockReq_cleanLock keyed.1, List.any_cons]
        cases rest.any (removes now key) <;> simp
      · intro out
        rw [List.foldl_cons, inputs out, any_frees_cleanLock keyed.1 distinct.1,
          mapLockedInputs_cleanLock_eq keyed.1, List.any_cons]
        cases rest.any (frees now state.mapTxLockReq out) <;> simp
      · intro hash none
        rw [List.any_cons, Bool.or_eq_false_iff] at none
        rw [List.foldl_cons, votes hash none.2, getElem?_mapTxLockVote_cleanLock none.1]

/-- The cleaner locks nothing. -/
theorem mapLockedInputs_cleanLock (out : COutPoint) :
    (state.cleanLock now it).mapLockedInputs out = none ∨
      (state.cleanLock now it).mapLockedInputs out = state.mapLockedInputs out := by
  unfold cleanLock
  split
  · simp only [mapLockedInputs_releaseRequest]
    split
    · exact Or.inl rfl
    · exact Or.inr rfl
  · exact Or.inr rfl

end

/-- The cleaning locks no input. -/
theorem of_mapLockedInputs_clean {env : SwiftEnv} {state : SwiftState} {out : COutPoint}
    {txHash : Uint256}
    (locked : (state.cleanTransactionLocksList env).mapLockedInputs out = some txHash) :
    state.mapLockedInputs out = some txHash := by
  unfold cleanTransactionLocksList at locked
  split at locked
  · exact locked
  · generalize state.mapTxLocks.toList = entries at locked
    induction entries generalizing state with
    | nil => exact locked
    | cons it rest ih =>
        have before := ih locked
        rcases mapLockedInputs_cleanLock env.node.time state it out with freed | kept
        · rw [freed] at before
          cases before
        · rwa [kept] at before

/-- Each lock is filed under its own transaction. -/
def Keyed (locks : Std.ExtTreeMap Uint256 CTransactionLock) : Prop :=
  ∀ {key : Uint256} {lock}, locks[key]? = some lock → lock.txHash = key

/-- The transaction has a lock that has expired. -/
def hasExpired (state : SwiftState) (now : Int) (txHash : Uint256) : Bool :=
  state.mapTxLocks[txHash]?.any fun lock => now > lock.nExpiration

/-- A late lock of the list has expired. -/
theorem mem_toList_expired {state : SwiftState} {now : Int} {it : Uint256 × CTransactionLock}
    (member : it ∈ state.mapTxLocks.toList) (late : now > it.2.nExpiration) :
    state.hasExpired now it.1 = true := by
  have found := Std.ExtTreeMap.mem_toList_iff_getElem?_eq_some.mp member
  simp [hasExpired, found, late]

/-- What the pass removes are the locks that have expired. -/
theorem any_removes (state : SwiftState) (now : Int) (key : Uint256) :
    state.mapTxLocks.toList.any (removes now key) = state.hasExpired now key := by
  rw [Bool.eq_iff_iff, List.any_eq_true]
  constructor
  · intro ⟨it, member, removed⟩
    simp only [removes, Bool.and_eq_true, decide_eq_true_eq] at removed
    obtain ⟨rfl, late⟩ := removed
    exact mem_toList_expired member late
  · intro late
    obtain ⟨lock, found, expired⟩ := (Option.any_eq_true _ _).mp late
    refine ⟨(key, lock), Std.ExtTreeMap.mem_toList_iff_getElem?_eq_some.mpr found, ?_⟩
    simpa [removes] using expired

/-- What the cleaner leaves on a node with a tip, if each lock is filed under its own
transaction. -/
structure Cleaned (now : Int) (before after : SwiftState) : Prop where
  locks : ∀ key : Uint256, after.mapTxLocks[key]? =
    if before.hasExpired now key then none else before.mapTxLocks[key]?
  requests : ∀ key : Uint256, after.mapTxLockReq[key]? =
    if before.hasExpired now key then none else before.mapTxLockReq[key]?
  freed : ∀ {key : Uint256} {tx out}, before.hasExpired now key = true →
    before.mapTxLockReq[key]? = some tx → out ∈ tx.vin.map CTxIn.prevout →
      after.mapLockedInputs out = none
  held : ∀ {out}, (∀ (key : Uint256) (tx), before.hasExpired now key = true →
    before.mapTxLockReq[key]? = some tx → out ∉ tx.vin.map CTxIn.prevout) →
      after.mapLockedInputs out = before.mapLockedInputs out
  votes : ∀ {hash : Uint256}, (∀ (key : Uint256) (lock), before.hasExpired now key = true →
    before.mapTxLocks[key]? = some lock → ∀ v ∈ lock.vecConsensusVotes, v.getHash ≠ hash) →
      after.mapTxLockVote[hash]? = before.mapTxLockVote[hash]?

/-- The pass over the locks removes exactly those that have expired. -/
theorem cleaned {env : SwiftEnv} {state : SwiftState} (keyed : Keyed state.mapTxLocks)
    (tip : env.node.tip.isSome) :
    Cleaned env.node.time state (state.cleanTransactionLocksList env) := by
  have filed : ∀ it ∈ state.mapTxLocks.toList, it.2.txHash = it.1 := by
    intro it member
    exact keyed (Std.ExtTreeMap.mem_toList_iff_getElem?_eq_some.mp member)
  have distinct : (state.mapTxLocks.toList.map Prod.fst).Nodup := by
    rw [Std.ExtTreeMap.map_fst_toList_eq_keys]
    exact Std.ExtTreeMap.nodup_keys
  obtain ⟨index, known⟩ := Option.isSome_iff_exists.mp tip
  obtain ⟨locks, requests, inputs, votes⟩ :=
    foldl_cleanLock env.node.time state distinct filed
  unfold cleanTransactionLocksList
  rw [known]
  refine ⟨?_, ?_, ?_, ?_, ?_⟩
  · intro key
    rw [locks, any_removes]
  · intro key
    rw [requests, any_removes]
  · intro key tx out expired found spends
    obtain ⟨lock, there, late⟩ := (Option.any_eq_true _ _).mp expired
    rw [inputs, if_pos]
    rw [List.any_eq_true]
    refine ⟨(key, lock), Std.ExtTreeMap.mem_toList_iff_getElem?_eq_some.mpr there, ?_⟩
    have spent : (some tx).any (fun tx => out ∈ tx.vin.map CTxIn.prevout) = true := by
      simpa using spends
    simp only [frees, found, spent, Bool.and_true]
    simpa using late
  · intro out elsewhere
    rw [inputs, if_neg]
    rw [List.any_eq_true]
    intro ⟨it, member, spends⟩
    simp only [frees, Bool.and_eq_true, decide_eq_true_eq, Option.any_eq_true] at spends
    obtain ⟨late, tx, found, spent⟩ := spends
    exact elsewhere it.1 tx (mem_toList_expired member late) found spent
  · intro hash elsewhere
    apply votes
    rw [List.any_eq_false]
    intro it member forgotten
    simp only [forgets, Bool.and_eq_true, decide_eq_true_eq, List.any_eq_true] at forgotten
    obtain ⟨late, v, vote, same⟩ := forgotten
    exact elsewhere it.1 it.2 (mem_toList_expired member late)
      (Std.ExtTreeMap.mem_toList_iff_getElem?_eq_some.mp member) v vote same

/-! ## Locks and quorums -/

/-- An event does not lock an input without a quorum: a request that is refused by
the memory pool finds all its inputs locked, or its own lock complete. -/
def NeedsQuorum (state : SwiftState) : SwiftAction → Prop
  | .ix env tx =>
      let locked := (state.createNewLock env tx).1
      state.considers env tx = true → locked.acceptToMemoryPool env tx = false →
        (∀ out ∈ tx.vin.map CTxIn.prevout, state.mapLockedInputs out ≠ none) ∨
          locked.IsComplete tx.hash
  | _ => True

section

variable {env : SwiftEnv} {state : SwiftState}

/-- Counting a vote locks inputs only for a transaction with a complete lock. -/
theorem countVote_origin {ctx : CConsensusVote} {out : COutPoint} {txHash : Uint256}
    (locked : (state.countVote env ctx).mapLockedInputs out = some txHash) :
    state.mapLockedInputs out = some txHash ∨ (state.countVote env ctx).IsComplete txHash := by
  unfold countVote at locked ⊢
  simp only at locked ⊢
  split at locked
  · rename_i complete
    obtain ⟨mapTxLocks, mapLockedInputs, same, -, dates, inputs⟩ := completeLock_eq env
      { state with
        mapTxLocks := state.mapTxLocks.insert ctx.txHash
          ((state.lockFor env ctx.txHash).addSignature ctx) } ctx.txHash
    rw [if_pos complete, same]
    rw [same] at locked
    rcases inputs out with unchanged | ⟨own, -, -⟩
    · exact Or.inl (unchanged.symm.trans locked)
    · right
      simp only at locked
      rw [own] at locked
      cases locked
      obtain ⟨nExpiration, found⟩ := dates Std.ExtTreeMap.getElem?_insert_self
      exact ⟨_, found, complete⟩
  · exact Or.inl locked

/-- An input that a step locks is locked for a transaction with a complete lock. -/
theorem step_origin {action : SwiftAction} (quorum : state.NeedsQuorum action) {out : COutPoint}
    {txHash : Uint256} (locked : (state.step action).mapLockedInputs out = some txHash) :
    state.mapLockedInputs out = some txHash ∨ (state.step action).IsComplete txHash := by
  cases action with
  | ix env tx =>
      simp only [step] at locked ⊢
      obtain ⟨newLocks, made, -⟩ := createNewLock_eq env state tx
      rcases processIx_cases env state tx with
        same | ⟨considered, ⟨-, votes, -, same⟩ | ⟨refused, same⟩⟩
      · rw [same] at locked
        exact Or.inl locked
      · rw [same, made] at locked
        exact Or.inl locked
      · obtain ⟨mapTxLocks, mapTxLockReq, rejected, -, dates, -⟩ :=
          rejectRequest_eq env (state.createNewLock env tx).1 tx
        rw [same, rejected] at locked ⊢
        rw [made] at locked
        simp only [recordRejection, lockInputs_eq] at locked
        split at locked
        · rename_i free
          cases locked
          rcases quorum considered refused with taken | ⟨lock, found, complete⟩
          · exact absurd free.1 (taken out free.2)
          · obtain ⟨nExpiration, later⟩ := dates found
            exact Or.inr ⟨_, later, complete⟩
        · exact Or.inl locked
  | txlvote env ctx =>
      simp only [step] at locked ⊢
      rcases processTxlvote_cases env state ctx with
        ⟨-, same⟩ | ⟨-, -, ⟨-, same⟩ | ⟨-, unknown, same⟩⟩
      · rw [same] at locked
        exact Or.inl locked
      · rw [same] at locked
        exact Or.inl locked
      · rw [same] at locked ⊢
        exact countVote_origin locked
  | sendIx env tx =>
      simp only [step, sendIx] at locked
      obtain ⟨newLocks, made, -⟩ := createNewLock_eq env
        { state with mapTxLockReq := state.mapTxLockReq.insertIfNew tx.hash tx } tx
      rw [made] at locked
      exact Or.inl locked
  | clean env => exact Or.inl (of_mapLockedInputs_clean locked)

end

/-- **Locks need a quorum**, in every run without refused requests that lock inputs:
a locked input belongs to a transaction whose lock was complete at some point. -/
theorem locked_only_with_quorum {actions : List SwiftAction}
    (quorum : AllSteps step NeedsQuorum {} actions) (out : COutPoint) (txHash : Uint256)
    (locked : (actions.foldl step {}).mapLockedInputs out = some txHash) :
    ∃ state ∈ states step {} actions, IsComplete state txHash := by
  have found := origin (fun state => state.mapLockedInputs out = some txHash)
    (fun state => state.IsComplete txHash) (fun _ _ ok after => step_origin ok after) quorum locked
  rcases found with initial | complete
  · cases initial
  · exact complete

/-- A node with six masternodes that takes part in SwiftTX. -/
def swiftEnv (mempoolAccepts : Bool) (time : Int) : SwiftEnv where
  node := { NodeContext.mainNode 500 with
    time
    mapSporksActive := fun spork => if spork = .swiftTx then some 1 else none }
  mnodeman := ⟨(List.range 6).map (CMasternode.enabledNode · (1000 * COIN))⟩
  getTransaction _ := none
  getInputAge _ := 6
  isNormalPaymentScript _ := true
  mempoolAccepts _ := mempoolAccepts
  activeMasternode := none
  sign _ _ := none
  hashText hash := toString hash.toNat

/-- A payment of ten coins. -/
def swiftPayment (hash : Uint256) : CTransaction where
  hash
  vin := [{ prevout := ⟨77, 0⟩ }]
  vout := [⟨10 * COIN, [0x76, 1], -10⟩]

/-- The vote of a masternode for a payment. -/
def swiftVote (hash : Uint256) (index : Nat) : CConsensusVote where
  vinMasternode := { prevout := ⟨BitVec.ofNat 256 (1000 + index), 0⟩ }
  txHash := hash
  nBlockHeight := 498
  vchMasterNodeSignature := [UInt8.ofNat index, 1]

/-- A request that is accepted and gets six votes. -/
def quorumRun : List SwiftAction :=
  .ix (swiftEnv true 1600000000) (swiftPayment 5) ::
    (List.range 6).map fun index => .txlvote (swiftEnv true 1600000000) (swiftVote 5 index)

/-- The run of the example meets the condition. -/
theorem quorumRun_needsQuorum : AllSteps step NeedsQuorum {} quorumRun := by
  refine ⟨?_, trivial, trivial, trivial, trivial, trivial, trivial, trivial⟩
  intro _ refused
  exact absurd refused (by decide)

/-- The lock of the example is complete. -/
theorem isComplete_quorumRun : ∃ state ∈ states step {} quorumRun, IsComplete state 5 :=
  locked_only_with_quorum quorumRun_needsQuorum ⟨77, 0⟩ 5 (by decide +kernel)

/-- A request that the memory pool refuses. -/
def refusedRun : List SwiftAction := [.ix (swiftEnv false 1600000000) (swiftPayment 5)]

/-- It locks its input without a single vote. -/
theorem locked_without_quorum :
    ¬ ∀ (actions : List SwiftAction) (out : COutPoint) (txHash : Uint256),
      (actions.foldl step {}).mapLockedInputs out = some txHash →
        ∃ state ∈ states step {} actions, IsComplete state txHash := by
  intro all
  obtain ⟨state, member, lock, found, complete⟩ := all refusedRun ⟨77, 0⟩ 5 (by decide)
  have votes : ∀ state ∈ states step {} refusedRun, ∀ lock,
      state.mapTxLocks[(5 : Uint256)]? = some lock → lock.vecConsensusVotes = [] := by
    intro state member lock found
    rcases List.mem_pair.mp member with rfl | rfl
    · cases found
    · cases found
      rfl
  rw [CTransactionLock.countSignatures, votes state member lock found] at complete
  split at complete
  · exact absurd complete (by decide)
  · rw [List.countP_nil] at complete
    exact absurd complete (by decide)

/-! ## Votes -/

/-- Locks that are kept keep their keys. -/
theorem LocksKept.keyed {before after : Std.ExtTreeMap Uint256 CTransactionLock}
    (kept : LocksKept before after) (keyed : Keyed before) : Keyed after := by
  intro key lock found
  rcases kept.back found with ⟨earlier, there, -, hash⟩ | ⟨-, -, hash⟩
  · exact hash.trans (keyed there)
  · exact hash

section

variable {env : SwiftEnv} {state : SwiftState}

/-- The votes for a transaction. -/
def votesFor (locks : Std.ExtTreeMap Uint256 CTransactionLock) (txHash : Uint256) :
    List CConsensusVote :=
  locks[txHash]?.elim [] CTransactionLock.vecConsensusVotes

/-- A new lock starts without votes, and one that is there keeps its own. -/
theorem votesFor_lockFor (txHash : Uint256) :
    (state.lockFor env txHash).vecConsensusVotes = votesFor state.mapTxLocks txHash := by
  unfold lockFor votesFor
  cases state.mapTxLocks[txHash]? with
  | none => rfl
  | some lock => rfl

/-- Locks that are kept keep their votes. -/
theorem votesFor_of_kept {before after : Std.ExtTreeMap Uint256 CTransactionLock}
    (kept : LocksKept before after) (key : Uint256) : votesFor after key = votesFor before key := by
  unfold votesFor
  cases found : after[key]? with
  | none =>
      cases there : before[key]? with
      | none => rfl
      | some lock =>
          obtain ⟨later, here, -⟩ := kept.stays there
          rw [found] at here
          cases here
  | some lock =>
      rcases kept.back found with ⟨earlier, there, votes, -⟩ | ⟨there, votes, -⟩
      · rw [there]
        exact votes
      · rw [there]
        exact votes

/-- What counting a vote does to the locks. -/
theorem countVote_locks (env : SwiftEnv) (state : SwiftState) (ctx : CConsensusVote) :
    LocksKept (state.mapTxLocks.insert ctx.txHash
        ((state.lockFor env ctx.txHash).addSignature ctx)) (state.countVote env ctx).mapTxLocks ∧
      (state.countVote env ctx).mapTxLockVote = state.mapTxLockVote := by
  unfold countVote
  simp only
  split
  · obtain ⟨mapTxLocks, mapLockedInputs, same, kept, -, -⟩ := completeLock_eq env
      { state with
        mapTxLocks := state.mapTxLocks.insert ctx.txHash
          ((state.lockFor env ctx.txHash).addSignature ctx) } ctx.txHash
    rw [same]
    exact ⟨kept, rfl⟩
  · exact ⟨LocksKept.refl _, rfl⟩

/-- Counting a vote adds it to its lock. -/
theorem votesFor_countVote (ctx : CConsensusVote) (key : Uint256) :
    votesFor (state.countVote env ctx).mapTxLocks key =
      if key = ctx.txHash then votesFor state.mapTxLocks key ++ [ctx]
      else votesFor state.mapTxLocks key := by
  rw [votesFor_of_kept (countVote_locks env state ctx).1, votesFor, Std.ExtTreeMap.getElem?_insert]
  simp only [Std.LawfulEqCmp.compare_eq_iff_eq]
  by_cases same : ctx.txHash = key
  · subst same
    simp only [↓reduceIte, Option.elim_some, CTransactionLock.addSignature, votesFor_lockFor]
  · have different : ¬ key = ctx.txHash := fun equal => same equal.symm
    simp only [same, different, ↓reduceIte, votesFor]

/-- Counting a vote keeps the keys. -/
theorem keyed_countVote (keyed : Keyed state.mapTxLocks) (ctx : CConsensusVote) :
    Keyed (state.countVote env ctx).mapTxLocks := by
  apply (countVote_locks env state ctx).1.keyed
  intro key lock found
  rw [Std.ExtTreeMap.getElem?_insert] at found
  split at found
  · rename_i same
    cases found
    rw [Std.LawfulEqCmp.compare_eq_iff_eq] at same
    subst same
    unfold lockFor
    cases there : state.mapTxLocks[ctx.txHash]? with
    | none => rfl
    | some lock =>
        have hash := keyed there
        exact hash
  · exact keyed found

/-- After the cleaning the votes of expired locks are gone. -/
theorem votesFor_of_cleaned {now : Int} {before after : SwiftState}
    (clean : Cleaned now before after) (key : Uint256) :
    votesFor after.mapTxLocks key =
      if before.hasExpired now key then [] else votesFor before.mapTxLocks key := by
  rw [votesFor, clean.locks]
  split
  · rfl
  · rfl

/-- The cleaning keeps the keys. -/
theorem Cleaned.keyed {now : Int} {before after : SwiftState} (clean : Cleaned now before after)
    (keyed : Keyed before.mapTxLocks) : Keyed after.mapTxLocks := by
  intro key lock found
  rw [clean.locks] at found
  split at found
  · cases found
  · exact keyed found

end

/-- What is true of the votes in every run: they are filed under their transaction
and remembered, no two have the same hash, and each has an origin. -/
structure VoteInv (source : CConsensusVote → Prop) (state : SwiftState) : Prop where
  keyed : Keyed state.mapTxLocks
  own : ∀ {key v}, v ∈ votesFor state.mapTxLocks key → v.txHash = key
  seen : ∀ {key v}, v ∈ votesFor state.mapTxLocks key →
    state.mapTxLockVote.contains v.getHash = true
  distinct : ∀ key, ((votesFor state.mapTxLocks key).map CConsensusVote.getHash).Nodup
  apart : ∀ {key other v w}, v ∈ votesFor state.mapTxLocks key →
    w ∈ votesFor state.mapTxLocks other → v.getHash = w.getHash → key = other
  accepted : ∀ {key v}, v ∈ votesFor state.mapTxLocks key → source v

namespace VoteInv

variable {source : CConsensusVote → Prop} {before after : SwiftState}

/-- A change that keeps the locks and forgets no vote. -/
theorem of_kept (inv : VoteInv source before) (kept : LocksKept before.mapTxLocks after.mapTxLocks)
    (grows : ∀ hash : Uint256, before.mapTxLockVote.contains hash = true →
      after.mapTxLockVote.contains hash = true) : VoteInv source after := by
  have votes := votesFor_of_kept kept
  refine ⟨kept.keyed inv.keyed, ?_, ?_, ?_, ?_, ?_⟩
  · intro key v member
    exact inv.own (votes key ▸ member)
  · intro key v member
    exact grows _ (inv.seen (votes key ▸ member))
  · intro key
    rw [votes key]
    exact inv.distinct key
  · intro key other v w first second
    exact inv.apart (votes key ▸ first) (votes other ▸ second)
  · intro key v member
    exact inv.accepted (votes key ▸ member)

/-- A vote that has not been seen is counted. -/
theorem countVote (inv : VoteInv source before) {env : SwiftEnv} {ctx : CConsensusVote}
    (new : before.mapTxLockVote.contains ctx.getHash = false) (from_source : source ctx)
    {seen : SwiftState}
    (marked : seen = { before with mapTxLockVote := before.mapTxLockVote.insert ctx.getHash ctx }) :
    VoteInv source (seen.countVote env ctx) := by
  have locks : seen.mapTxLocks = before.mapTxLocks := by rw [marked]
  have votes : ∀ key, votesFor (seen.countVote env ctx).mapTxLocks key =
      if key = ctx.txHash then votesFor before.mapTxLocks key ++ [ctx]
      else votesFor before.mapTxLocks key := by
    intro key
    rw [votesFor_countVote, locks]
  -- a vote of a lock is the new one, or an old one with another hash
  have members : ∀ {key v}, v ∈ votesFor (seen.countVote env ctx).mapTxLocks key →
      (v = ctx ∧ key = ctx.txHash) ∨
        (v ∈ votesFor before.mapTxLocks key ∧ v.getHash ≠ ctx.getHash) := by
    intro key v member
    have old : v ∈ votesFor before.mapTxLocks key → v.getHash ≠ ctx.getHash := by
      intro there same
      have known := inv.seen there
      rw [same, new] at known
      cases known
    rw [votes key] at member
    split at member
    · rename_i same
      rcases List.mem_append.mp member with there | here
      · exact Or.inr ⟨there, old there⟩
      · exact Or.inl ⟨List.mem_singleton.mp here, same⟩
    · exact Or.inr ⟨member, old member⟩
  refine ⟨keyed_countVote (locks ▸ inv.keyed) ctx, ?_, ?_, ?_, ?_, ?_⟩
  · intro key v member
    rcases members member with ⟨rfl, same⟩ | ⟨there, -⟩
    · exact same.symm
    · exact inv.own there
  · intro key v member
    rw [(countVote_locks env seen ctx).2, marked, Std.ExtTreeMap.contains_insert]
    rcases members member with ⟨rfl, -⟩ | ⟨there, -⟩
    · simp
    · simp [inv.seen there]
  · intro key
    rw [votes key]
    split
    · rw [List.map_append, List.nodup_append]
      refine ⟨inv.distinct key, List.nodup_singleton _, ?_⟩
      intro hash there other here same
      obtain ⟨v, member, rfl⟩ := List.mem_map.mp there
      have known := inv.seen member
      rw [List.map_singleton, List.mem_singleton] at here
      rw [same, here, new] at known
      cases known
    · exact inv.distinct key
  · intro key other v w first second same
    rcases members first with ⟨rfl, here⟩ | ⟨there, different⟩
    · rcases members second with ⟨rfl, alsoHere⟩ | ⟨-, different⟩
      · exact here.trans alsoHere.symm
      · exact absurd same.symm different
    · rcases members second with ⟨rfl, -⟩ | ⟨alsoThere, -⟩
      · exact absurd same different
      · exact inv.apart there alsoThere same
  · intro key v member
    rcases members member with ⟨rfl, -⟩ | ⟨there, -⟩
    · exact from_source
    · exact inv.accepted there

/-- The cleaner forgets a vote only together with its lock. -/
theorem clean (inv : VoteInv source before) {now : Int} (clean : Cleaned now before after) :
    VoteInv source after := by
  have members : ∀ {key v}, v ∈ votesFor after.mapTxLocks key →
      before.hasExpired now key = false ∧ v ∈ votesFor before.mapTxLocks key := by
    intro key v member
    rw [votesFor_of_cleaned clean] at member
    split at member
    · cases member
    · rename_i valid
      exact ⟨Bool.not_eq_true _ ▸ valid, member⟩
  refine ⟨clean.keyed inv.keyed, ?_, ?_, ?_, ?_, ?_⟩
  · intro key v member
    exact inv.own (members member).2
  · intro key v member
    obtain ⟨valid, there⟩ := members member
    have same : after.mapTxLockVote[v.getHash]? = before.mapTxLockVote[v.getHash]? := by
      apply clean.votes
      intro other lock expired found w vote equal
      have here : w ∈ votesFor before.mapTxLocks other := by
        simpa [votesFor, found] using vote
      rw [inv.apart here there equal, valid] at expired
      cases expired
    have known := inv.seen there
    rw [Std.ExtTreeMap.contains_eq_isSome_getElem?] at known ⊢
    rwa [same]
  · intro key
    rw [votesFor_of_cleaned clean]
    split
    · exact List.nodup_nil
    · exact inv.distinct key
  · intro key other v w first second
    exact inv.apart (members first).2 (members second).2
  · intro key v member
    exact inv.accepted (members member).2

/-- **Every step keeps the votes apart.** -/
theorem step (inv : VoteInv source before) {action : SwiftAction}
    (covered : ∀ env v, action = .txlvote env v → Accepts env v → source v) :
    VoteInv source (before.step action) := by
  cases action with
  | ix env tx =>
      obtain ⟨newLocks, made, kept⟩ := createNewLock_eq env before tx
      simp only [SwiftState.step]
      rcases processIx_cases env before tx with same | ⟨-, ⟨-, votes, grows, same⟩ | ⟨-, same⟩⟩
      · rw [same]
        exact inv
      · rw [same, made]
        apply inv.of_kept kept
        intro hash known
        rcases grows with rfl | ⟨ctx, rfl⟩
        · exact known
        · simp [Std.ExtTreeMap.contains_insert, known]
      · obtain ⟨mapTxLocks, mapTxLockReq, rejected, later, -⟩ :=
          rejectRequest_eq env (before.createNewLock env tx).1 tx
        rw [same, rejected, made]
        rw [made] at later
        exact inv.of_kept (kept.trans later) fun hash known => known
  | txlvote env ctx =>
      simp only [SwiftState.step]
      rcases processTxlvote_cases env before ctx with
        ⟨-, same⟩ | ⟨-, new, ⟨-, same⟩ | ⟨accepted, unknown, same⟩⟩
      · rw [same]
        exact inv
      · rw [same]
        refine inv.of_kept (LocksKept.refl _) ?_
        intro hash known
        simp [Std.ExtTreeMap.contains_insert, known]
      · rw [same]
        exact (inv.countVote new (covered env ctx rfl accepted) rfl).of_kept (LocksKept.refl _)
          fun hash known => known
  | sendIx env tx =>
      obtain ⟨newLocks, made, kept⟩ := createNewLock_eq env
        { before with mapTxLockReq := before.mapTxLockReq.insertIfNew tx.hash tx } tx
      simp only [SwiftState.step, sendIx]
      rw [made]
      exact inv.of_kept kept fun hash known => known
  | clean env =>
      simp only [SwiftState.step]
      cases tip : env.node.tip with
      | none =>
          rw [cleanTransactionLocksList, tip]
          exact inv
      | some index => exact inv.clean (cleaned inv.keyed (by simp [tip]))

end VoteInv

/-- In every run the votes come from messages of the run. -/
theorem voteInv_run (actions : List SwiftAction) :
    VoteInv (fun v => ∃ env, .txlvote env v ∈ actions ∧ Accepts env v)
      (actions.foldl step {}) := by
  have members : AllSteps step (fun _ action => action ∈ actions) {} actions :=
    allSteps_of_forall fun _ _ member => member
  refine invariant_of_steps ?_ ?_ members
  · intro state action member inv
    apply inv.step
    rintro env v rfl accepted
    exact ⟨env, member, accepted⟩
  · refine ⟨?_, ?_, ?_, ?_, ?_, ?_⟩
    all_goals simp [Keyed, votesFor]

/-- **No vote is counted twice.** The votes of a lock have distinct hashes, so they
come from distinct masternodes; each was taken from a masternode of the top ten, with
its signature; and there are no more signatures than masternodes that voted at the
height of the lock. -/
theorem votes_counted_once (actions : List SwiftAction) {txHash : Uint256}
    {lock : CTransactionLock} (found : (actions.foldl step {}).mapTxLocks[txHash]? = some lock) :
    (lock.vecConsensusVotes.map CConsensusVote.getHash).Nodup ∧
      (lock.vecConsensusVotes.map fun v => v.vinMasternode.prevout.hash +
        BitVec.ofNat 256 v.vinMasternode.prevout.n.toNat).Nodup ∧
      (∀ v ∈ lock.vecConsensusVotes, ∃ env, .txlvote env v ∈ actions ∧ Accepts env v) ∧
      lock.countSignatures ≤ ((lock.vecConsensusVotes.filter
        (·.nBlockHeight == lock.nBlockHeight)).map (·.vinMasternode.prevout)).dedup.length := by
  have inv := voteInv_run actions
  have votes : votesFor (actions.foldl step {}).mapTxLocks txHash = lock.vecConsensusVotes := by
    rw [votesFor, found]
    rfl
  have hashes : (lock.vecConsensusVotes.map CConsensusVote.getHash).Nodup :=
    votes ▸ inv.distinct txHash
  have voters : (lock.vecConsensusVotes.map fun v => v.vinMasternode.prevout.hash +
      BitVec.ofNat 256 v.vinMasternode.prevout.n.toNat).Nodup := by
    apply List.Nodup.of_map (· + txHash)
    rw [List.map_map]
    convert hashes using 1
    apply List.map_congr_left
    intro v member
    have own : v.txHash = txHash := inv.own (votes ▸ member)
    rw [Function.comp_apply, CConsensusVote.getHash, own]
  refine ⟨hashes, voters, ?_, ?_⟩
  · intro v member
    exact inv.accepted (votes ▸ member)
  · have prevouts : (lock.vecConsensusVotes.map (·.vinMasternode.prevout)).Nodup := by
      apply List.Nodup.of_map fun out : COutPoint => out.hash + BitVec.ofNat 256 out.n.toNat
      rw [List.map_map]
      exact voters
    have counted : ((lock.vecConsensusVotes.filter
        (·.nBlockHeight == lock.nBlockHeight)).map (·.vinMasternode.prevout)).Nodup :=
      prevouts.sublist (List.filter_sublist.map _)
    rw [CTransactionLock.countSignatures, counted.dedup, List.length_map,
      List.countP_eq_length_filter]
    split
    · omega
    · exact Int.le_refl _

/-- In the run of the example each vote is counted once. -/
theorem votes_counted_once_quorumRun :
    ∃ lock, (quorumRun.foldl step {}).mapTxLocks[(5 : Uint256)]? = some lock ∧
      (lock.vecConsensusVotes.map CConsensusVote.getHash).Nodup := by
  have locked : (quorumRun.foldl step {}).mapTxLocks[(5 : Uint256)]?.isSome := by decide +kernel
  obtain ⟨lock, found⟩ := Option.isSome_iff_exists.mp locked
  exact ⟨lock, found, (votes_counted_once quorumRun found).1⟩

/-! ## Forged votes -/

section

variable {env env' : SwiftEnv}

/-- Ranking masternodes leaves their keys alone. -/
theorem signatureValid_rank (vinMasternode : CTxIn) (nBlockHeight : Int) (vote : CConsensusVote) :
    signatureValid env (rank env vinMasternode nBlockHeight).1 vote =
      signatureValid env env.mnodeman vote := by
  have entry : ∀ mn : CMasternode,
      (CMasternodeMan.rankEntry env.node minSwiftTxProtoVersion mn).1.vin = mn.vin ∧
        (CMasternodeMan.rankEntry env.node minSwiftTxProtoVersion mn).1.pubKeyMasternode =
          mn.pubKeyMasternode := by
    intro mn
    unfold CMasternodeMan.rankEntry
    split
    · exact ⟨rfl, rfl⟩
    · split
      · exact ⟨rfl, rfl⟩
      · exact ⟨mn.vin_check _, mn.pubKeyMasternode_check _⟩
  unfold rank CMasternodeMan.getMasternodeRank
  split
  · rfl
  · simp only [signatureValid, CMasternodeMan.find, List.find?_map, List.map_map]
    have same : ((fun mn : CMasternode => mn.vin.prevout == vote.vinMasternode.prevout) ∘
        Prod.fst ∘ CMasternodeMan.rankEntry env.node minSwiftTxProtoVersion) =
          fun mn => mn.vin.prevout == vote.vinMasternode.prevout := by
      funext mn
      simp only [Function.comp_apply, (entry mn).1]
    rw [same]
    cases env.mnodeman.vMasternodes.find?
        fun mn => mn.vin.prevout == vote.vinMasternode.prevout with
    | none => rfl
    | some pmn => simp only [Option.map_some, Function.comp_apply, (entry pmn).2]

/-- The voter is one of the top ten at the height of the vote. -/
def isRanked (env : SwiftEnv) (vote : CConsensusVote) : Bool :=
  1 ≤ (rank env vote.vinMasternode vote.nBlockHeight).2 &&
    (rank env vote.vinMasternode vote.nBlockHeight).2 ≤ swiftTxSignaturesTotal

/-- A vote is accepted for its rank and its signature. -/
theorem accepts_iff (vote : CConsensusVote) :
    Accepts env vote ↔ isRanked env vote = true ∧ signatureValid env env.mnodeman vote = true := by
  simp only [Accepts, isRanked, signatureValid_rank, Bool.and_eq_true, decide_eq_true_eq, and_assoc]

/-- **A forged copy shuts out a lock vote.** If a vote is preceded by a copy with a bad
signature, the votes of the locks end up as if it came alone exactly when the copy or
the vote is not handled, the hash was seen before, or the voter has no rank. -/
theorem votesFor_after_forged_iff (state : SwiftState) {vote : CConsensusVote}
    {vchMasterNodeSignature : List UInt8}
    (invalid : signatureValid env' env'.mnodeman { vote with vchMasterNodeSignature } = false)
    (valid : signatureValid env env.mnodeman vote = true) :
    votesFor ((state.processTxlvote env' { vote with vchMasterNodeSignature }).processTxlvote env
        vote).mapTxLocks = votesFor (state.processTxlvote env vote).mapTxLocks ↔
      ¬ (handles env' = true ∧ handles env = true ∧
        state.mapTxLockVote.contains vote.getHash = false ∧ isRanked env vote = true) := by
  have hash : ({ vote with vchMasterNodeSignature } : CConsensusVote).getHash = vote.getHash := rfl
  have refused : ¬ Accepts env' { vote with vchMasterNodeSignature } := by
    rw [accepts_iff, invalid]
    simp
  -- alone, the vote changes the votes exactly when it is taken
  have alone : votesFor (state.processTxlvote env vote).mapTxLocks = votesFor state.mapTxLocks ↔
      ¬ (handles env = true ∧ state.mapTxLockVote.contains vote.getHash = false ∧
        isRanked env vote = true) := by
    rcases processTxlvote_cases env state vote with
      ⟨reason, same⟩ | ⟨handled, new, ⟨unranked, same⟩ | ⟨accepted, unknown, same⟩⟩
    · rw [same]
      refine iff_of_true rfl ?_
      intro ⟨handled, new, _⟩
      rcases reason with unhandled | seen
      · rw [unhandled] at handled
        cases handled
      · rw [seen] at new
        cases new
    · rw [same]
      refine iff_of_true rfl ?_
      intro ⟨_, _, ranked⟩
      exact unranked ((accepts_iff vote).mpr ⟨ranked, valid⟩)
    · rw [same]
      refine iff_of_false ?_ fun refutes =>
        refutes ⟨handled, new, ((accepts_iff vote).mp accepted).1⟩
      intro unchanged
      have here := congrFun unchanged vote.txHash
      simp only [votesFor_countVote, ↓reduceIte] at here
      exact absurd here (by simp)
  rcases processTxlvote_cases env' state { vote with vchMasterNodeSignature } with
    ⟨reason, same⟩ | ⟨handled, new, ⟨-, same⟩ | ⟨accepted, -⟩⟩
  · rw [same]
    refine iff_of_true rfl ?_
    intro ⟨handled, _, new, _⟩
    rcases reason with unhandled | seen
    · rw [unhandled] at handled
      cases handled
    · rw [hash, new] at seen
      cases seen
  · have ignored : SwiftState.processTxlvote env { state with
        mapTxLockVote := state.mapTxLockVote.insert vote.getHash
          { vote with vchMasterNodeSignature } } vote = { state with
        mapTxLockVote := state.mapTxLockVote.insert vote.getHash
          { vote with vchMasterNodeSignature } } := by
      rcases processTxlvote_cases env { state with
          mapTxLockVote := state.mapTxLockVote.insert vote.getHash
            { vote with vchMasterNodeSignature } } vote with ⟨-, same⟩ | ⟨-, new, -⟩
      · exact same
      · simp at new
    rw [same, hash, ignored, eq_comm, alone]
    simp only [handled, true_and]
  · exact absurd accepted refused

end

/-! ## Expiry -/

/-- No request other than that of the transaction spends one of its inputs. -/
def Unshared (requests : Std.ExtTreeMap Uint256 CTransaction) (txHash : Uint256)
    (tx : CTransaction) : Prop :=
  ∀ {key : Uint256} {other}, requests[key]? = some other → key ≠ txHash →
    ∀ out ∈ tx.vin.map CTxIn.prevout, out ∉ other.vin.map CTxIn.prevout

/-- An event keeps the cleaner exact. No request shares an input with another one.
And a request that is refused by the memory pool finds all its inputs locked, or the
votes overrule the memory pool. -/
def KeepsApart (state : SwiftState) : SwiftAction → Prop
  | .ix env tx =>
      let locked := (state.createNewLock env tx).1
      state.considers env tx = true →
        if locked.acceptToMemoryPool env tx then Unshared state.mapTxLockReq tx.hash tx
        else
          ¬ locked.OverrulesPool tx ∧
              (∀ out ∈ tx.vin.map CTxIn.prevout, state.mapLockedInputs out ≠ none) ∨
            locked.OverrulesPool tx ∧ Unshared state.mapTxLockReq tx.hash tx
  | .sendIx _ tx =>
      state.mapTxLockReq.contains tx.hash = true ∨ Unshared state.mapTxLockReq tx.hash tx
  | _ => True

/-- What relates the maps in a run that keeps requests apart: a locked input belongs
to a request with a lock, and no two requests spend the same input. -/
structure LockInv (state : SwiftState) : Prop where
  keyed : Keyed state.mapTxLocks
  backed : ∀ {out txHash}, state.mapLockedInputs out = some txHash →
    txHash ∈ state.mapTxLocks ∧
      ∃ tx, state.mapTxLockReq[txHash]? = some tx ∧ out ∈ tx.vin.map CTxIn.prevout
  apart : ∀ {key other : Uint256} {tx tx' out}, state.mapTxLockReq[key]? = some tx →
    state.mapTxLockReq[other]? = some tx' → out ∈ tx.vin.map CTxIn.prevout →
      out ∈ tx'.vin.map CTxIn.prevout → key = other

/-- A request that is there stays when another comes. -/
theorem getElem?_insertIfNew_of_found {requests : Std.ExtTreeMap Uint256 CTransaction}
    {key : Uint256} {other : CTransaction} (found : requests[key]? = some other)
    (txHash : Uint256) (tx : CTransaction) :
    (requests.insertIfNew txHash tx)[key]? = some other := by
  rw [Std.ExtTreeMap.getElem?_insertIfNew, if_neg, found]
  intro ⟨equal, absent⟩
  rw [Std.LawfulEqCmp.compare_eq_iff_eq] at equal
  subst equal
  rw [Std.ExtTreeMap.mem_iff_isSome_getElem?, found] at absent
  exact absent rfl

/-- What counting a vote does to the requests and the locked inputs. -/
theorem countVote_requests (env : SwiftEnv) (state : SwiftState) (ctx : CConsensusVote) :
    ((state.countVote env ctx).mapTxLockReq = state.mapTxLockReq ∨
        (state.countVote env ctx).mapTxLockReq =
          state.mapTxLockReq.insertIfNew ctx.txHash CTransaction.empty) ∧
      ∀ out, (state.countVote env ctx).mapLockedInputs out = state.mapLockedInputs out ∨
        (state.countVote env ctx).mapLockedInputs out = some ctx.txHash ∧
          ∃ tx, (state.countVote env ctx).mapTxLockReq[ctx.txHash]? = some tx ∧
            out ∈ tx.vin.map CTxIn.prevout := by
  unfold countVote
  simp only
  split
  · obtain ⟨mapTxLocks, mapLockedInputs, same, -, -, inputs⟩ := completeLock_eq env
      { state with
        mapTxLocks := state.mapTxLocks.insert ctx.txHash
          ((state.lockFor env ctx.txHash).addSignature ctx) } ctx.txHash
    rw [same]
    refine ⟨Or.inr rfl, ?_⟩
    intro out
    rcases inputs out with unchanged | ⟨own, -, tx, found, spends⟩
    · exact Or.inl unchanged
    · exact Or.inr ⟨own, tx, getElem?_insertIfNew_of_found found _ _, spends⟩
  · exact ⟨Or.inl rfl, fun out => Or.inl rfl⟩

/-- A lock that is kept is still there. -/
theorem LocksKept.mem {before after : Std.ExtTreeMap Uint256 CTransactionLock}
    (kept : LocksKept before after) {key : Uint256} (there : key ∈ before) : key ∈ after := by
  rw [Std.ExtTreeMap.mem_iff_isSome_getElem?] at there ⊢
  obtain ⟨lock, found⟩ := Option.isSome_iff_exists.mp there
  obtain ⟨later, here, -⟩ := kept.stays found
  simp [here]

namespace LockInv

variable {before after : SwiftState}

/-- A change that removes no lock, and brings in at most one request. -/
theorem of_request (inv : LockInv before) (keyed : Keyed after.mapTxLocks)
    (grows : ∀ key ∈ before.mapTxLocks, key ∈ after.mapTxLocks) (txHash : Uint256)
    (tx : CTransaction)
    (requests : after.mapTxLockReq = before.mapTxLockReq ∨
      after.mapTxLockReq = before.mapTxLockReq.insertIfNew txHash tx ∧
        (txHash ∈ before.mapTxLockReq ∨ Unshared before.mapTxLockReq txHash tx))
    (inputs : ∀ out, after.mapLockedInputs out = before.mapLockedInputs out ∨
      after.mapLockedInputs out = some txHash ∧ txHash ∈ after.mapTxLocks ∧
        ∃ tx, after.mapTxLockReq[txHash]? = some tx ∧ out ∈ tx.vin.map CTxIn.prevout) :
    LockInv after := by
  have stays : ∀ {key : Uint256} {other}, before.mapTxLockReq[key]? = some other →
      after.mapTxLockReq[key]? = some other := by
    intro key other found
    rcases requests with same | ⟨same, -⟩
    · rwa [same]
    · rw [same]
      exact getElem?_insertIfNew_of_found found txHash tx
  -- a request is an old one, or the new one and shares nothing
  have origin : ∀ {key : Uint256} {other}, after.mapTxLockReq[key]? = some other →
      before.mapTxLockReq[key]? = some other ∨
        key = txHash ∧ other = tx ∧ Unshared before.mapTxLockReq txHash tx := by
    intro key other found
    rcases requests with same | ⟨same, known | unshared⟩
    · exact Or.inl (same ▸ found)
    · rw [same, Std.ExtTreeMap.getElem?_insertIfNew, if_neg] at found
      · exact Or.inl found
      · exact fun both => both.2 known
    · rw [same, Std.ExtTreeMap.getElem?_insertIfNew] at found
      split at found
      · rename_i both
        rw [Std.LawfulEqCmp.compare_eq_iff_eq] at both
        exact Or.inr ⟨both.1.symm, (Option.some.inj found).symm, unshared⟩
      · exact Or.inl found
  refine ⟨keyed, ?_, ?_⟩
  · intro out locker locked
    rcases inputs out with same | ⟨here, there, found⟩
    · rw [same] at locked
      obtain ⟨lock, request, found, spends⟩ := inv.backed locked
      exact ⟨grows _ lock, request, stays found, spends⟩
    · rw [here] at locked
      cases locked
      exact ⟨there, found⟩
  · intro key other first second out found found' spends spends'
    rcases origin found with old | ⟨rfl, rfl, unshared⟩
    · rcases origin found' with old' | ⟨rfl, rfl, unshared⟩
      · exact inv.apart old old' spends spends'
      · by_contra different
        exact unshared old different out spends' spends
    · rcases origin found' with old' | ⟨rfl, rfl, -⟩
      · by_contra different
        exact unshared old' (fun equal => different equal.symm) out spends spends'
      · rfl

/-- Counting a vote locks inputs of a request, and brings in at most an empty one. -/
theorem countVote (inv : LockInv before) (env : SwiftEnv) (ctx : CConsensusVote) :
    LockInv (before.countVote env ctx) := by
  obtain ⟨requests, inputs⟩ := countVote_requests env before ctx
  obtain ⟨locks, -⟩ := countVote_locks env before ctx
  have own : ctx.txHash ∈ (before.countVote env ctx).mapTxLocks :=
    locks.mem Std.ExtTreeMap.mem_insert_self
  refine inv.of_request (keyed_countVote inv.keyed ctx) ?_ ctx.txHash CTransaction.empty ?_ ?_
  · intro key there
    exact locks.mem (Std.ExtTreeMap.mem_insert.mpr (Or.inr there))
  · refine requests.imp_right fun same => ⟨same, Or.inr ?_⟩
    intro key other found different out member
    cases member
  · intro out
    exact (inputs out).imp_right fun ⟨here, found⟩ => ⟨here, own, found⟩

/-- The cleaner frees the inputs of expired locks and no others. -/
theorem mapLockedInputs_cleaned (inv : LockInv before) {now : Int}
    (clean : Cleaned now before after) (out : COutPoint) :
    after.mapLockedInputs out =
      (before.mapLockedInputs out).filter fun txHash => !before.hasExpired now txHash := by
  by_cases spent : ∃ (key : Uint256) (tx : CTransaction), before.hasExpired now key = true ∧
      before.mapTxLockReq[key]? = some tx ∧ out ∈ tx.vin.map CTxIn.prevout
  · obtain ⟨key, tx, expired, found, spends⟩ := spent
    rw [clean.freed expired found spends]
    cases locked : before.mapLockedInputs out with
    | none => rfl
    | some txHash =>
        obtain ⟨-, own, request, spent⟩ := inv.backed locked
        have same := inv.apart found request spends spent
        rw [Option.filter_some, ← same, expired]
        rfl
  · rw [clean.held fun key tx expired found spends => spent ⟨key, tx, expired, found, spends⟩]
    cases locked : before.mapLockedInputs out with
    | none => rfl
    | some txHash =>
        obtain ⟨-, own, request, spends⟩ := inv.backed locked
        cases expired : before.hasExpired now txHash with
        | true => exact absurd ⟨txHash, own, expired, request, spends⟩ spent
        | false =>
            rw [Option.filter_some, expired]
            rfl

/-- The cleaning keeps the invariant. -/
theorem clean (inv : LockInv before) {now : Int} (clean : Cleaned now before after) :
    LockInv after := by
  have kept : ∀ {key : Uint256} {tx}, after.mapTxLockReq[key]? = some tx →
      before.mapTxLockReq[key]? = some tx := by
    intro key tx found
    rw [clean.requests] at found
    split at found
    · cases found
    · exact found
  refine ⟨clean.keyed inv.keyed, ?_, ?_⟩
  · intro out txHash locked
    rw [inv.mapLockedInputs_cleaned clean, Option.filter_eq_some_iff] at locked
    obtain ⟨there, valid⟩ := locked
    obtain ⟨lock, tx, found, spends⟩ := inv.backed there
    have unexpired : before.hasExpired now txHash = false := by simpa using valid
    rw [Std.ExtTreeMap.mem_iff_isSome_getElem?, clean.locks, clean.requests, unexpired]
    exact ⟨Std.ExtTreeMap.mem_iff_isSome_getElem?.mp lock, tx, found, spends⟩
  · intro key other tx tx' out found found'
    exact inv.apart (kept found) (kept found')

/-- A request brings in a transaction that shares no input, or nothing. -/
theorem processIx (inv : LockInv before) {env : SwiftEnv} {tx : CTransaction}
    (apart : before.KeepsApart (.ix env tx)) : LockInv (before.processIx env tx) := by
  obtain ⟨newLocks, made, kept⟩ := createNewLock_eq env before tx
  rcases processIx_cases env before tx with
    same | ⟨considered, ⟨accepted, votes, -, same⟩ | ⟨refused, same⟩⟩
  · rw [same]
    exact inv
  · have unshared := apart considered
    rw [if_pos accepted] at unshared
    rw [same, made]
    exact inv.of_request (kept.keyed inv.keyed) (fun key => kept.mem) tx.hash tx
      (Or.inr ⟨rfl, Or.inr unshared⟩) fun out => Or.inl rfl
  · obtain ⟨mapTxLocks, mapTxLockReq, rejected, later, -, outcome⟩ :=
      rejectRequest_eq env (before.createNewLock env tx).1 tx
    have all := apart considered
    rw [refused, if_neg Bool.false_ne_true] at all
    rw [same, rejected]
    rw [made] at outcome later all ⊢
    have stays := kept.trans later
    have inputs := lockInputs_eq before.mapLockedInputs tx.hash tx.vin
    rcases all with ⟨pool, taken⟩ | ⟨votes, unshared⟩
    · rcases outcome with ⟨rfl, -⟩ | ⟨-, overruled⟩
      · refine inv.of_request (stays.keyed inv.keyed) (fun key => stays.mem) tx.hash tx
          (Or.inl rfl) fun out => Or.inl ((inputs out).trans (if_neg ?_))
        exact fun free => taken out free.2 free.1
      · exact absurd overruled pool
    · rcases outcome with ⟨-, refuses⟩ | ⟨rfl, -⟩
      · exact absurd votes refuses
      · obtain ⟨lock, found, -⟩ := votes.1
        have there : tx.hash ∈ newLocks := Std.ExtTreeMap.mem_iff_isSome_getElem?.mpr
          (by rw [found]; rfl)
        have new : tx.hash ∉ before.mapTxLockReq := by
          simp only [considers, Bool.and_eq_true, Bool.not_eq_true', Bool.or_eq_false_iff]
            at considered
          rw [← Std.ExtTreeMap.contains_iff_mem, considered.1.1.2.1]
          exact Bool.false_ne_true
        refine inv.of_request (stays.keyed inv.keyed) (fun key => stays.mem) tx.hash tx
          (Or.inr ⟨rfl, Or.inr unshared⟩) ?_
        intro out
        by_cases free : before.mapLockedInputs out = none ∧ out ∈ tx.vin.map CTxIn.prevout
        · refine Or.inr ⟨(inputs out).trans (if_pos free), later.mem there, tx, ?_, free.2⟩
          rw [Std.ExtTreeMap.getElem?_insertIfNew, if_pos]
          exact ⟨Std.ReflCmp.compare_self, new⟩
        · exact Or.inl ((inputs out).trans (if_neg free))

/-- A vote keeps the invariant. -/
theorem processTxlvote (inv : LockInv before) (env : SwiftEnv) (ctx : CConsensusVote) :
    LockInv (before.processTxlvote env ctx) := by
  rcases processTxlvote_cases env before ctx with
    ⟨-, same⟩ | ⟨-, -, ⟨-, same⟩ | ⟨-, unknown, same⟩⟩
  · rw [same]
    exact inv
  · rw [same]
    exact ⟨inv.keyed, inv.backed, inv.apart⟩
  · rw [same]
    have seen : LockInv { before with
        mapTxLockVote := before.mapTxLockVote.insert ctx.getHash ctx } :=
      ⟨inv.keyed, inv.backed, inv.apart⟩
    have counted := seen.countVote env ctx
    exact ⟨counted.keyed, counted.backed, counted.apart⟩

/-- **A step that keeps requests apart keeps locked inputs backed by requests.** -/
theorem step (inv : LockInv before) {action : SwiftAction} (apart : before.KeepsApart action) :
    LockInv (before.step action) := by
  cases action with
  | ix env tx => exact inv.processIx apart
  | txlvote env ctx => exact inv.processTxlvote env ctx
  | sendIx env tx =>
      obtain ⟨newLocks, made, kept⟩ := createNewLock_eq env
        { before with mapTxLockReq := before.mapTxLockReq.insertIfNew tx.hash tx } tx
      simp only [SwiftState.step, sendIx]
      rw [made]
      exact inv.of_request (kept.keyed inv.keyed) (fun key => kept.mem) tx.hash tx
        (Or.inr ⟨rfl, apart.imp_left Std.ExtTreeMap.contains_iff_mem.mp⟩) fun out => Or.inl rfl
  | clean env =>
      simp only [SwiftState.step]
      cases tip : env.node.tip with
      | none =>
          rw [cleanTransactionLocksList, tip]
          exact inv
      | some index => exact inv.clean (cleaned inv.keyed (by simp [tip]))

end LockInv

/-- **Expiry is exact**, in every run that keeps requests apart: after the cleaner has
run, an input is locked if and only if it was locked before and its transaction still
has a lock, which has not expired. -/
theorem clean_exact {actions : List SwiftAction} (apart : AllSteps step KeepsApart {} actions)
    (env : SwiftEnv) (tip : env.node.tip.isSome) (out : COutPoint) :
    let before := actions.foldl step {}
    let after := before.cleanTransactionLocksList env
    (after.mapLockedInputs out).isSome ↔
      ∃ txHash lock, before.mapLockedInputs out = some txHash ∧
        after.mapTxLocks[txHash]? = some lock ∧ ¬ env.node.time > lock.nExpiration := by
  intro before after
  have inv : LockInv before := by
    refine invariant_of_steps (fun state action ok inv => inv.step ok) ?_ apart
    refine ⟨?_, ?_, ?_⟩
    all_goals simp [Keyed]
  have clean : Cleaned env.node.time before after := cleaned inv.keyed tip
  rw [inv.mapLockedInputs_cleaned clean]
  cases locked : before.mapLockedInputs out with
  | none => simp
  | some txHash =>
      obtain ⟨there, -⟩ := inv.backed locked
      rw [Std.ExtTreeMap.mem_iff_isSome_getElem?] at there
      obtain ⟨lock, found⟩ := Option.isSome_iff_exists.mp there
      by_cases late : env.node.time > lock.nExpiration
      · have expired : before.hasExpired env.node.time txHash = true := by
          simp [hasExpired, found, late]
        have gone : after.mapTxLocks[txHash]? = none := by
          rw [clean.locks, expired]
          rfl
        simp [Option.filter_some, expired, gone]
      · have valid : before.hasExpired env.node.time txHash = false := by
          simp only [hasExpired, found, Option.any_some, decide_eq_false_iff_not]
          exact late
        have kept : after.mapTxLocks[txHash]? = some lock := by
          rw [clean.locks, valid]
          exact found
        simp only [Option.filter_some, valid, Bool.not_false, ↓reduceIte, Option.isSome_some,
          true_iff]
        exact ⟨txHash, lock, rfl, kept, late⟩

/-- The run of the example keeps its transactions apart. -/
theorem quorumRun_keepsApart : AllSteps step KeepsApart {} quorumRun := by
  refine ⟨?_, trivial, trivial, trivial, trivial, trivial, trivial, trivial⟩
  intro _
  rw [if_pos (by decide)]
  intro key other found
  rw [Std.ExtTreeMap.getElem?_empty] at found
  cases found

/-- The cleaning after the run of the example frees what it should. -/
theorem clean_exact_quorumRun :
    (((quorumRun.foldl step {}).cleanTransactionLocksList
        (swiftEnv true 1600010000)).mapLockedInputs ⟨77, 0⟩).isSome ↔
      ∃ txHash lock, (quorumRun.foldl step {}).mapLockedInputs ⟨77, 0⟩ = some txHash ∧
        ((quorumRun.foldl step {}).cleanTransactionLocksList
          (swiftEnv true 1600010000)).mapTxLocks[txHash]? = some lock ∧
        ¬ 1600010000 > lock.nExpiration :=
  clean_exact quorumRun_keepsApart (swiftEnv true 1600010000) (by decide) ⟨77, 0⟩

/-- The input of a refused request stays locked when its lock is gone. -/
theorem clean_not_exact :
    ¬ ∀ (actions : List SwiftAction) (env : SwiftEnv) (out : COutPoint), env.node.tip.isSome →
      let before := actions.foldl step {}
      let after := before.cleanTransactionLocksList env
      (after.mapLockedInputs out).isSome ↔
        ∃ txHash lock, before.mapLockedInputs out = some txHash ∧
          after.mapTxLocks[txHash]? = some lock ∧ ¬ env.node.time > lock.nExpiration := by
  intro all
  have exact := all refusedRun (swiftEnv false 1600010000) ⟨77, 0⟩ (by decide)
  obtain ⟨txHash, lock, locked, found, -⟩ := exact.mp (by decide)
  have own : (refusedRun.foldl step {}).mapLockedInputs ⟨77, 0⟩ = some 5 := by decide
  rw [own] at locked
  cases locked
  have gone : ((refusedRun.foldl step {}).cleanTransactionLocksList
      (swiftEnv false 1600010000)).mapTxLocks[(5 : Uint256)]? = none := by decide
  rw [gone] at found
  cases found

end SwiftState

end GiantCore
