import GiantCore.Validation.ZerocoinRecords

/-! # Verifying the databases

`CVerifyDB::VerifyDB` walks down the chain from its tip. From the third level on it
disconnects the blocks on a scratch view of the coins, and at the fourth it connects
them again. Disconnecting a block also erases its zerocoins, and the zerocoin database
is no part of the scratch view. Only connecting the block again brings them back.
-/

namespace GiantCore

open CValidationState

/-- What `VerifyDB` finds at each block, besides what connecting blocks reads. -/
structure VerifyContext where
  /-- The undo records can be read from disk. -/
  undoReadable : Uint256 → Bool
  /-- The sizes of the caches are in the limit. -/
  cacheFits : Uint256 → Bool
  /-- `ShutdownRequested` after the block. -/
  shutdownRequested : Uint256 → Bool

/-- The variables of `VerifyDB`, with the state of the node. -/
structure VerifyState where
  node : ChainState
  /-- The scratch view. -/
  coins : CoinsView
  pindexState : Uint256
  /-- `pindexFailure` is set. -/
  failure : Bool := false

section

variable (ctx : ChainContext) (verify : VerifyContext) (nCheckLevel : Int)

/-- The validation state of `VerifyDB`. -/
def verifyState : CValidationState := {}

/-- The first two levels: the block is valid, and its undo records can be read. -/
def verifyLevels (state : ChainState) (hash : Uint256) (pindex : ChainIndex) (block : CBlock) :
    Except AcceptFailure Unit := do
  if nCheckLevel ≥ 1 then
    match checkBlock (ctx.validationAt state) block ctx.budget ctx.payments true verifyState
        ctx.budgetState with
    | none => .error .undefined
    | some checked => let _ ← acceptRule checked
  if nCheckLevel ≥ 2 && pindex.vtxundo.isSome && !verify.undoReadable hash then
    .error (.refused verifyState)
  else .ok ()

/-- One round of the loop of `VerifyDB`, and whether to go on after it. -/
def verifyRound (hash : Uint256) (current : VerifyState) :
    VerifyState × Except AcceptFailure Bool :=
  match current.node.mapBlockIndex hash, ctx.readBlockFromDisk hash with
  | none, _ => (current, .error .undefined)
  | some _, none => (current, .error (.refused verifyState))
  | some pindex, some block =>
      match verifyLevels ctx verify nCheckLevel current.node hash pindex block with
      | .error failure => (current, .error failure)
      | .ok () =>
          if nCheckLevel ≥ 3 ∧ hash = current.pindexState ∧ verify.cacheFits hash then
            match current.node.disconnectBlock ctx verifyState block hash current.coins with
            | (node, .error failure) => ({ current with node }, .error failure)
            | (node, .ok (coins, fClean)) =>
                ({ node, coins
                   pindexState := pindex.hashPrev.getD 0
                   failure := current.failure || !fClean },
                  .ok (!verify.shutdownRequested hash))
          else (current, .ok (!verify.shutdownRequested hash))

/-- The loop of `VerifyDB` from the tip down, to the depth that is asked for. -/
def verifyDown (lowest : Int) : List Uint256 → VerifyState →
    VerifyState × Except AcceptFailure Bool
  | [], current => (current, .ok true)
  | hash :: rest, current =>
      if (current.node.mapBlockIndex hash).any fun pindex => decide (pindex.nHeight < lowest) then
        (current, .ok true)
      else
        match verifyRound ctx verify nCheckLevel hash current with
        | (next, .error failure) => (next, .error failure)
        | (next, .ok false) => (next, .ok false)
        | (next, .ok true) => verifyDown lowest rest next

/-- The fourth level: connect the blocks again, up to the tip. -/
def verifyUp : List Uint256 → VerifyState → VerifyState × Except AcceptFailure Unit
  | [], current => (current, .ok ())
  | hash :: rest, current =>
      match ctx.readBlockFromDisk hash with
      | none => (current, .error (.refused verifyState))
      | some block =>
          match current.node.connectBlock ctx block verifyState (.entry hash) current.coins false
              false with
          | (node, .error failure) => ({ current with node }, .error failure)
          | (node, .ok coins) =>
              verifyUp rest { current with node, coins }

/-- The variables before the loop. -/
def verifyStart (state : ChainState) (coinsview : CoinsView) : VerifyState where
  node := state
  coins := coinsview
  pindexState := state.chainActive.getLast?.getD 0

/-- The level that is asked for, between 0 and 4. -/
def checkLevel : Int := max 0 (min 4 nCheckLevel)

/-- The height of the lowest block that is verified. -/
def lowestHeight (state : ChainState) (nCheckDepth : Int) : Int :=
  let height := (ctx.nodeAt state).height
  let nCheckDepth := if nCheckDepth ≤ 0 then 1000000000 else nCheckDepth
  let nCheckDepth := if nCheckDepth > height then height else nCheckDepth
  height - nCheckDepth

/-- The blocks above the one that the scratch view is at. -/
def blocksAbove (state : ChainState) (pindexState : Uint256) : List Uint256 :=
  (state.chainActive.dropWhile fun hash => hash != pindexState).tail

/-- `VerifyDB`: the variables at its end, and whether it returns true. -/
def verifyDB (state : ChainState) (coinsview : CoinsView) (nCheckDepth : Int) :
    VerifyState × Except AcceptFailure Unit :=
  let start := verifyStart state coinsview
  -- the tip is missing or the first block
  if state.chainActive.tail.isEmpty then (start, .ok ())
  else
    match verifyDown ctx verify (checkLevel nCheckLevel) (lowestHeight ctx state nCheckDepth)
        state.chainActive.tail.reverse start with
    | (current, .error failure) => (current, .error failure)
    | (current, .ok false) => (current, .ok ())
    | (current, .ok true) =>
        if current.failure then (current, .error (.refused verifyState))
        else if checkLevel nCheckLevel ≥ 4 then
          verifyUp ctx (blocksAbove state current.pindexState) current
        else (current, .ok ())

/-! ## The records that are at stake -/

/-- The records of the block that a round takes back, if it takes it back. -/
def erasedRound (hash : Uint256) (current : VerifyState) : ErasedKeys :=
  match current.node.mapBlockIndex hash, ctx.readBlockFromDisk hash with
  | some pindex, some block =>
      match verifyLevels ctx verify nCheckLevel current.node hash pindex block with
      | .error _ => {}
      | .ok () =>
          if nCheckLevel ≥ 3 ∧ hash = current.pindexState ∧ verify.cacheFits hash then
            current.node.erasedBlock ctx verifyState block hash current.coins
          else {}
  | _, _ => {}

/-- The records of the blocks that the loop takes back. -/
def erasedDown (lowest : Int) : List Uint256 → VerifyState → ErasedKeys
  | [], _ => {}
  | hash :: rest, current =>
      if (current.node.mapBlockIndex hash).any fun pindex => decide (pindex.nHeight < lowest) then
        {}
      else
        match verifyRound ctx verify nCheckLevel hash current with
        | (next, .ok true) =>
            (erasedRound ctx verify nCheckLevel hash current).append (erasedDown lowest rest next)
        | _ => erasedRound ctx verify nCheckLevel hash current

/-- The blocks that the fourth level gets connected, up to the first that fails. The first
block of the chain has no records written. -/
def connectedUp : List Uint256 → VerifyState → List CBlock
  | [], _ => []
  | hash :: rest, current =>
      match ctx.readBlockFromDisk hash with
      | none => []
      | some block =>
          match current.node.connectBlock ctx block verifyState (.entry hash) current.coins false
              false with
          | (_, .error _) => []
          | (node, .ok coins) =>
              if block.hash = ctx.hashGenesisBlock then
                connectedUp rest { current with node, coins }
              else block :: connectedUp rest { current with node, coins }

/-- The records of the blocks that are taken back. -/
def takenBack (state : ChainState) (coinsview : CoinsView) (nCheckDepth : Int) : ErasedKeys :=
  erasedDown ctx verify (checkLevel nCheckLevel) (lowestHeight ctx state nCheckDepth)
    state.chainActive.tail.reverse (verifyStart state coinsview)

/-- The blocks that are connected again: none below the fourth level, after a failure, or
after a request to shut down. -/
def connectedAgain (state : ChainState) (coinsview : CoinsView) (nCheckDepth : Int) :
    List CBlock :=
  match verifyDown ctx verify (checkLevel nCheckLevel) (lowestHeight ctx state nCheckDepth)
      state.chainActive.tail.reverse (verifyStart state coinsview) with
  | (current, .ok true) =>
      if current.failure ∨ checkLevel nCheckLevel < 4 then []
      else connectedUp ctx (blocksAbove state current.pindexState) current
  | _ => []

end

/-! ## The records of the chain -/

namespace ChainContext

variable (ctx : ChainContext)

/-- A record of a block of the chain. -/
def RecordIn (records : CBlock → List (Nat × Uint256)) (hashes : List Uint256) (key : Nat)
    (txid : Uint256) : Prop :=
  ∃ hash ∈ hashes, ∃ block, ctx.readBlockFromDisk hash = some block ∧ (key, txid) ∈ records block

/-- The database holds exactly the spends and the mints of the chain. -/
structure HoldsRecords (state : ChainState) : Prop where
  spends : ∀ key txid, state.zerocoinDB.spends[key]? = some txid ↔
    ctx.RecordIn ctx.blockSpendRecords state.chainActive key txid
  mints : ∀ key txid, state.zerocoinDB.mints[key]? = some txid ↔
    ctx.RecordIn ctx.blockMintRecords state.chainActive key txid

/-- Every record of a block that is taken back is one of a block that is connected again. -/
structure ConnectsAgain (verify : VerifyContext) (nCheckLevel : Int) (state : ChainState)
    (coinsview : CoinsView) (nCheckDepth : Int) : Prop where
  spends : ∀ key ∈ (takenBack ctx verify nCheckLevel state coinsview nCheckDepth).spends,
    ∃ block ∈ connectedAgain ctx verify nCheckLevel state coinsview nCheckDepth,
      key ∈ (ctx.blockSpendRecords block).map Prod.fst
  mints : ∀ key ∈ (takenBack ctx verify nCheckLevel state coinsview nCheckDepth).mints,
    ∃ block ∈ connectedAgain ctx verify nCheckLevel state coinsview nCheckDepth,
      key ∈ (ctx.blockMintRecords block).map Prod.fst

end ChainContext

/-! ## Erasing and writing again -/

namespace ZerocoinDB

/-- Where a map holds some records, and only such are erased and written, it holds them
afterwards exactly if all that is erased is written. -/
theorem holds_iff {records : Nat → Uint256 → Prop} {map : Std.ExtTreeMap Nat Uint256}
    {erased : List Nat} {written : List (Nat × Uint256)}
    (holds : ∀ key txid, map[key]? = some txid ↔ records key txid)
    (inside : ∀ key ∈ erased, ∃ txid, records key txid)
    (known : ∀ entry ∈ written, records entry.1 entry.2) :
    (∀ key txid, (written.foldl (fun map entry => map.insert entry.1 entry.2)
        (erased.foldl Std.ExtTreeMap.erase map))[key]? = some txid ↔ records key txid) ↔
      ∀ key ∈ erased, key ∈ written.map Prod.fst := by
  constructor
  · intro still key member
    by_contra absent
    obtain ⟨txid, record⟩ := inside key member
    have found := (still key txid).mpr record
    rw [getElem?_foldl_insert_of_not_mem _ absent, ErasedKeys.getElem?_foldl_erase,
      if_pos member] at found
    cases found
  · intro again key txid
    by_cases present : key ∈ written.map Prod.fst
    · obtain ⟨other, member, found⟩ :=
        getElem?_foldl_insert_of_mem (erased.foldl Std.ExtTreeMap.erase map) present
      have record : map[key]? = some other := (holds key other).mpr (known _ member)
      rw [found, ← record, holds]
    · have kept : key ∉ erased := fun member => present (again key member)
      rw [getElem?_foldl_insert_of_not_mem _ present, ErasedKeys.getElem?_foldl_erase,
        if_neg kept, holds]

end ZerocoinDB

section

variable {ctx : ChainContext}

theorem foldl_writeRecords (blocks : List CBlock) (db : ZerocoinDB) :
    blocks.foldl (fun db block => ctx.writeRecords block db) db =
      ⟨(blocks.flatMap ctx.blockSpendRecords).foldl (fun map entry => map.insert entry.1 entry.2)
          db.spends,
        (blocks.flatMap ctx.blockMintRecords).foldl (fun map entry => map.insert entry.1 entry.2)
          db.mints⟩ := by
  induction blocks generalizing db with
  | nil => rfl
  | cons block rest ih =>
      rw [List.foldl_cons, ih, List.flatMap_cons, List.flatMap_cons, List.foldl_append,
        List.foldl_append]
      rfl

/-! ## Going down -/

variable (ctx) (verify : VerifyContext) (nCheckLevel : Int)

theorem node_verifyRound (hash : Uint256) (current : VerifyState) :
    (verifyRound ctx verify nCheckLevel hash current).1.node.chainActive =
        current.node.chainActive ∧
      (verifyRound ctx verify nCheckLevel hash current).1.node.zerocoinDB =
        (erasedRound ctx verify nCheckLevel hash current).eraseFrom current.node.zerocoinDB := by
  unfold verifyRound erasedRound
  cases index : current.node.mapBlockIndex hash with
  | none => exact ⟨rfl, rfl⟩
  | some pindex =>
      cases disk : ctx.readBlockFromDisk hash with
      | none => exact ⟨rfl, rfl⟩
      | some block =>
          dsimp only
          cases verifyLevels ctx verify nCheckLevel current.node hash pindex block with
          | error failure => exact ⟨rfl, rfl⟩
          | ok =>
              dsimp only
              split
              · have erased : (current.node.disconnectBlock ctx verifyState block hash
                  current.coins).1.zerocoinDB = _ := zerocoinDB_disconnectBlock ..
                have chain : (current.node.disconnectBlock ctx verifyState block hash
                    current.coins).1.chainActive = current.node.chainActive := by
                  obtain ⟨db, store, wrote⟩ : ∃ db store, (current.node.disconnectBlock ctx
                      verifyState block hash current.coins).1 =
                      { current.node with zerocoinDB := db, accumulators := store } :=
                    ChainState.disconnectBlock_fst ..
                  rw [wrote]
                rw [← erased]
                split
                · rename_i went
                  rw [went] at chain ⊢
                  exact ⟨chain, rfl⟩
                · rename_i went
                  rw [went] at chain ⊢
                  exact ⟨chain, rfl⟩
              · exact ⟨rfl, rfl⟩

/-- **The loop** erases the records of the blocks it takes back, and no others. -/
theorem node_verifyDown (lowest : Int) (hashes : List Uint256) (current : VerifyState) :
    (verifyDown ctx verify nCheckLevel lowest hashes current).1.node.chainActive =
        current.node.chainActive ∧
      (verifyDown ctx verify nCheckLevel lowest hashes current).1.node.zerocoinDB =
        (erasedDown ctx verify nCheckLevel lowest hashes current).eraseFrom
          current.node.zerocoinDB := by
  induction hashes generalizing current with
  | nil => exact ⟨rfl, rfl⟩
  | cons hash rest ih =>
      unfold verifyDown erasedDown
      split
      · exact ⟨rfl, rfl⟩
      · have round := node_verifyRound ctx verify nCheckLevel hash current
        rcases went : verifyRound ctx verify nCheckLevel hash current with ⟨next, failure | goes⟩
        · rw [went] at round
          exact round
        · rw [went] at round
          cases goes with
          | false => exact round
          | true =>
              obtain ⟨chain, erased⟩ := ih next
              dsimp only
              rw [chain, erased, ErasedKeys.eraseFrom_append]
              exact ⟨round.1, congrArg _ round.2⟩

/-! ## Going up -/

/-- **The fourth level** writes the records of the blocks it gets connected. -/
theorem node_verifyUp (hashes : List Uint256) (current : VerifyState) :
    (verifyUp ctx hashes current).1.node.chainActive = current.node.chainActive ∧
      (verifyUp ctx hashes current).1.node.zerocoinDB =
        (connectedUp ctx hashes current).foldl (fun db block => ctx.writeRecords block db)
          current.node.zerocoinDB := by
  induction hashes generalizing current with
  | nil => exact ⟨rfl, rfl⟩
  | cons hash rest ih =>
      unfold verifyUp connectedUp
      cases disk : ctx.readBlockFromDisk hash with
      | none => exact ⟨rfl, rfl⟩
      | some block =>
          dsimp only
          rcases went : current.node.connectBlock ctx block verifyState (.entry hash) current.coins
            false false with ⟨node, failure | coins⟩
          · cases index : current.node.mapBlockIndex hash with
            | none =>
                have unchanged : node = current.node := by
                  have index : current.node.index (.entry hash) = none := index
                  unfold ChainState.connectBlock at went
                  rw [index] at went
                  split at went
                  · exact (Prod.mk.inj went).1.symm
                  · exact (Prod.mk.inj went).1.symm
                  · cases ‹none = some _›
                rw [unchanged]
                exact ⟨rfl, rfl⟩
            | some pindex =>
                have refuses := ChainState.refusesTip_of_connectBlock index went
                exact ⟨refuses.chainActive, refuses.zerocoinDB⟩
          · obtain ⟨chain, wrote⟩ := zerocoinDB_connectBlock went
            obtain ⟨later, writes⟩ := ih { current with node, coins }
            refine ⟨later.trans chain, ?_⟩
            dsimp only
            rw [writes, wrote]
            split
            · rfl
            · rfl

/-! ## Which records these are -/

theorem readSpendKeys_subset (vin : List CTxIn) :
    ∀ key ∈ (ctx.readSpendKeys vin).1, key ∈ vin.filterMap ctx.spendKey := by
  induction vin with
  | nil => simp [ChainContext.readSpendKeys]
  | cons txin rest ih =>
      intro key member
      unfold ChainContext.readSpendKeys at member
      split at member
      · cases member
      · rename_i first read
        rw [List.filterMap_cons_some read]
        rcases List.mem_cons.mp member with rfl | later
        · exact List.mem_cons_self
        · exact List.mem_cons_of_mem _ (ih key later)

theorem readMintKeys_subset (vout : List CTxOut) :
    ∀ key ∈ (ctx.readMintKeys vout).1,
      key ∈ (vout.filterMap txOutToPublicCoin).map fun coin => ctx.hashBignum coin.value := by
  induction vout with
  | nil => simp [ChainContext.readMintKeys]
  | cons txout rest ih =>
      intro key member
      unfold ChainContext.readMintKeys at member
      split at member
      · cases member
      · rename_i coin read
        rw [List.filterMap_cons_some read, List.map_cons]
        rcases List.mem_cons.mp member with rfl | later
        · exact List.mem_cons_self
        · exact List.mem_cons_of_mem _ (ih key later)

/-- The keys are ones of records of a block. -/
structure ErasedKeys.Within (keys : ErasedKeys) (spends mints : List (Nat × Uint256)) : Prop where
  spends : ∀ key ∈ keys.spends, key ∈ spends.map Prod.fst
  mints : ∀ key ∈ keys.mints, key ∈ mints.map Prod.fst

theorem erasedOf_within (tx : CTransaction) :
    (ctx.erasedOf tx).Within (ctx.spendRecords tx) (ctx.mintRecords tx) := by
  refine ⟨?_, ?_⟩
  · intro key member
    have listed := readSpendKeys_subset ctx _ key member
    rw [ChainContext.spendRecords, List.map_map]
    exact List.mem_map.mpr ⟨key, listed, rfl⟩
  · intro key member
    have listed : key ∈ tx.publicCoins.map fun coin => ctx.hashBignum coin.value := by
      unfold ChainContext.erasedOf at member
      dsimp only at member
      split at member
      · exact readMintKeys_subset ctx _ key member
      · cases member
    rw [ChainContext.mintRecords, List.map_map]
    exact listed

theorem erasedRounds_within (state : ChainState) (vstate : CValidationState) (nHeight : Int)
    (txs : List (CTransaction × Option CTxUndo)) (current : DisconnectState) :
    (state.erasedRounds ctx vstate nHeight txs current).Within
      ((txs.map Prod.fst).flatMap ctx.spendRecords)
          ((txs.map Prod.fst).flatMap ctx.mintRecords) := by
  induction txs with
  | nil => exact ⟨nofun, nofun⟩
  | cons entry rest ih =>
      obtain ⟨tx, txundo⟩ := entry
      have first := erasedOf_within ctx tx
      rw [List.map_cons, List.flatMap_cons, List.flatMap_cons]
      unfold ChainState.erasedRounds
      split
      · refine ⟨?_, ?_⟩
        · intro key member
          rw [List.map_append]
          exact List.mem_append_right _ (ih.spends key member)
        · intro key member
          rw [List.map_append]
          exact List.mem_append_right _ (ih.mints key member)
      · refine ⟨?_, ?_⟩
        · intro key member
          rw [List.map_append, List.mem_append]
          rcases List.mem_append.mp member with later | here
          · exact Or.inr (ih.spends key later)
          · exact Or.inl (first.spends key here)
        · intro key member
          rw [List.map_append, List.mem_append]
          rcases List.mem_append.mp member with later | here
          · exact Or.inr (ih.mints key later)
          · exact Or.inl (first.mints key here)

theorem erasedBlock_within (state : ChainState) (vstate : CValidationState) (block : CBlock)
    (hash : Uint256) (view : CoinsView) :
    (state.erasedBlock ctx vstate block hash view).Within (ctx.blockSpendRecords block)
      (ctx.blockMintRecords block) := by
  unfold ChainState.erasedBlock
  split
  · exact ⟨nofun, nofun⟩
  · rename_i pindex index
    split
    · exact ⟨nofun, nofun⟩
    · split
      · rename_i vtxundo hashPrev undo parent
        split
        · exact ⟨nofun, nofun⟩
        · rename_i length
          have all : (block.vtx.zip (none :: vtxundo.map some)).map Prod.fst = block.vtx := by
            apply List.map_fst_zip
            simp only [List.length_cons, List.length_map]
            omega
          have within := erasedRounds_within ctx state vstate pindex.nHeight
            (block.vtx.zip (none :: vtxundo.map some))
            { view := view.coins, zerocoinDB := state.zerocoinDB }
          rw [all] at within
          exact within
      · exact ⟨nofun, nofun⟩

/-- The keys are ones of records of blocks on disk. -/
structure ErasedKeys.FromBlocks (keys : ErasedKeys) (hashes : List Uint256) : Prop where
  spends : ∀ key ∈ keys.spends, ∃ txid, ctx.RecordIn ctx.blockSpendRecords hashes key txid
  mints : ∀ key ∈ keys.mints, ∃ txid, ctx.RecordIn ctx.blockMintRecords hashes key txid

variable {ctx} in
theorem ChainContext.RecordIn.mono {records : CBlock → List (Nat × Uint256)}
    {part all : List Uint256} {key : Nat} {txid : Uint256}
    (record : ctx.RecordIn records part key txid) (inside : ∀ hash ∈ part, hash ∈ all) :
    ctx.RecordIn records all key txid := by
  obtain ⟨hash, member, found⟩ := record
  exact ⟨hash, inside hash member, found⟩

theorem erasedRound_fromBlocks (hash : Uint256) (current : VerifyState) :
    (erasedRound ctx verify nCheckLevel hash current).FromBlocks ctx [hash] := by
  unfold erasedRound
  split
  · rename_i pindex block index disk
    split
    · exact ⟨nofun, nofun⟩
    · split
      · have within := erasedBlock_within ctx current.node verifyState block hash current.coins
        refine ⟨?_, ?_⟩
        · intro key member
          obtain ⟨⟨_, txid⟩, listed, rfl⟩ := List.mem_map.mp (within.spends key member)
          exact ⟨txid, hash, List.mem_singleton_self hash, block, disk, listed⟩
        · intro key member
          obtain ⟨⟨_, txid⟩, listed, rfl⟩ := List.mem_map.mp (within.mints key member)
          exact ⟨txid, hash, List.mem_singleton_self hash, block, disk, listed⟩
      · exact ⟨nofun, nofun⟩
  · exact ⟨nofun, nofun⟩

theorem erasedDown_fromBlocks (lowest : Int) (hashes : List Uint256) (current : VerifyState) :
    (erasedDown ctx verify nCheckLevel lowest hashes current).FromBlocks ctx hashes := by
  induction hashes generalizing current with
  | nil => exact ⟨nofun, nofun⟩
  | cons hash rest ih =>
      have first := erasedRound_fromBlocks ctx verify nCheckLevel hash current
      have here : ∀ other ∈ [hash], other ∈ hash :: rest := by simp
      have below : ∀ other ∈ rest, other ∈ hash :: rest := fun _ => List.mem_cons_of_mem _
      unfold erasedDown
      split
      · exact ⟨nofun, nofun⟩
      · split
        · rename_i next went
          refine ⟨?_, ?_⟩
          · intro key member
            rcases List.mem_append.mp member with member | member
            · exact (first.spends key member).imp fun _ record => record.mono here
            · exact ((ih next).spends key member).imp fun _ record => record.mono below
          · intro key member
            rcases List.mem_append.mp member with member | member
            · exact (first.mints key member).imp fun _ record => record.mono here
            · exact ((ih next).mints key member).imp fun _ record => record.mono below
        · refine ⟨?_, ?_⟩
          · intro key member
            exact (first.spends key member).imp fun _ record => record.mono here
          · intro key member
            exact (first.mints key member).imp fun _ record => record.mono here

theorem connectedUp_onDisk (hashes : List Uint256) (current : VerifyState) :
    ∀ block ∈ connectedUp ctx hashes current,
      ∃ hash ∈ hashes, ctx.readBlockFromDisk hash = some block := by
  induction hashes generalizing current with
  | nil => exact nofun
  | cons hash rest ih =>
      intro block member
      have below : (∃ hash ∈ rest, ctx.readBlockFromDisk hash = some block) →
          ∃ other ∈ hash :: rest, ctx.readBlockFromDisk other = some block := by
        rintro ⟨other, inside, disk⟩
        exact ⟨other, List.mem_cons_of_mem _ inside, disk⟩
      unfold connectedUp at member
      split at member
      · cases member
      · rename_i top disk
        split at member
        · cases member
        · split at member
          · exact below (ih _ block member)
          · rcases List.mem_cons.mp member with rfl | later
            · exact ⟨hash, List.mem_cons_self, disk⟩
            · exact below (ih _ block later)

/-! ## The whole call -/

variable (state : ChainState) (coinsview : CoinsView) (nCheckDepth : Int)

/-- **What `VerifyDB` does to the zerocoin database.** -/
theorem node_verifyDB :
    (verifyDB ctx verify nCheckLevel state coinsview nCheckDepth).1.node.chainActive =
        state.chainActive ∧
      (verifyDB ctx verify nCheckLevel state coinsview nCheckDepth).1.node.zerocoinDB =
        (connectedAgain ctx verify nCheckLevel state coinsview nCheckDepth).foldl
          (fun db block => ctx.writeRecords block db)
          ((takenBack ctx verify nCheckLevel state coinsview nCheckDepth).eraseFrom
            state.zerocoinDB) := by
  have down := node_verifyDown ctx verify (checkLevel nCheckLevel)
    (lowestHeight ctx state nCheckDepth) state.chainActive.tail.reverse
    (verifyStart state coinsview)
  unfold verifyDB connectedAgain takenBack
  dsimp only
  split
  · rename_i alone
    have none : state.chainActive.tail = [] := List.isEmpty_iff.mp alone
    have above : ∀ hash, blocksAbove state hash = [] := by
      intro hash
      have suffix := (state.chainActive.dropWhile_suffix fun other => other != hash).length_le
      have length := congrArg List.length none
      rw [List.length_tail] at length
      apply List.eq_nil_of_length_eq_zero
      rw [blocksAbove, List.length_tail]
      simp only [List.length_nil] at length
      omega
    rw [none]
    simp only [List.reverse_nil, verifyDown, erasedDown, above, connectedUp, ite_self,
      List.foldl_nil]
    exact ⟨rfl, rfl⟩
  · rcases went : verifyDown ctx verify (checkLevel nCheckLevel)
      (lowestHeight ctx state nCheckDepth) state.chainActive.tail.reverse
      (verifyStart state coinsview) with ⟨current, failure | goes⟩
    · rw [went] at down
      exact down
    · rw [went] at down
      cases goes with
      | false => exact down
      | true =>
          dsimp only at down ⊢
          by_cases failed : current.failure = true
          · simp only [failed, if_true, true_or]
            exact down
          · simp only [failed, Bool.false_eq_true, if_false, false_or]
            by_cases top : checkLevel nCheckLevel ≥ 4
            · rw [if_pos top, if_neg (not_lt.mpr top)]
              obtain ⟨chain, wrote⟩ := node_verifyUp ctx
                (blocksAbove state current.pindexState) current
              rw [chain, wrote, down.1, down.2]
              exact ⟨rfl, rfl⟩
            · rw [if_neg top, if_pos (not_le.mp top)]
              exact down

variable {ctx} in
/-- Blocks of the chain bring their records back. -/
theorem ChainContext.recordIn_iff {records : CBlock → List (Nat × Uint256)}
    {hashes : List Uint256} {map : Std.ExtTreeMap Nat Uint256} {erased : List Nat}
    {blocks : List CBlock}
    (holds : ∀ key txid, map[key]? = some txid ↔ ctx.RecordIn records hashes key txid)
    (inside : ∀ key ∈ erased, ∃ txid, ctx.RecordIn records hashes key txid)
    (onDisk : ∀ block ∈ blocks, ∃ hash ∈ hashes, ctx.readBlockFromDisk hash = some block) :
    (∀ key txid, ((blocks.flatMap records).foldl (fun map entry => map.insert entry.1 entry.2)
        (erased.foldl Std.ExtTreeMap.erase map))[key]? = some txid ↔
        ctx.RecordIn records hashes key txid) ↔
      ∀ key ∈ erased, ∃ block ∈ blocks, key ∈ (records block).map Prod.fst := by
  have known : ∀ entry ∈ blocks.flatMap records, ctx.RecordIn records hashes entry.1 entry.2 := by
    intro entry member
    obtain ⟨block, here, listed⟩ := List.mem_flatMap.mp member
    obtain ⟨hash, inChain, disk⟩ := onDisk block here
    exact ⟨hash, inChain, block, disk, listed⟩
  rw [ZerocoinDB.holds_iff holds inside known]
  simp only [List.map_flatMap, List.mem_flatMap]

/-- **The database after the call** holds the records of the chain if it held them before
and all that is taken back is connected again. -/
theorem holdsRecords_node_iff (holds : ctx.HoldsRecords state) :
    ctx.HoldsRecords (verifyDB ctx verify nCheckLevel state coinsview nCheckDepth).1.node ↔
      ctx.ConnectsAgain verify nCheckLevel state coinsview nCheckDepth := by
  obtain ⟨chain, wrote⟩ := node_verifyDB ctx verify nCheckLevel state coinsview nCheckDepth
  rw [foldl_writeRecords] at wrote
  have below : ∀ hash ∈ state.chainActive.tail.reverse, hash ∈ state.chainActive := by
    intro hash member
    exact List.mem_of_mem_tail (List.mem_reverse.mp member)
  have erased : (takenBack ctx verify nCheckLevel state coinsview nCheckDepth).FromBlocks ctx
      state.chainActive.tail.reverse := erasedDown_fromBlocks ..
  have onDisk : ∀ block ∈ connectedAgain ctx verify nCheckLevel state coinsview nCheckDepth,
      ∃ hash ∈ state.chainActive, ctx.readBlockFromDisk hash = some block := by
    intro block member
    unfold connectedAgain at member
    split at member
    · split at member
      · cases member
      · rename_i current went _
        obtain ⟨hash, inside, disk⟩ := connectedUp_onDisk ctx _ current block member
        have inside := List.mem_of_mem_tail inside
        exact ⟨hash, (List.dropWhile_suffix _).subset inside, disk⟩
    · cases member
  have spends := ChainContext.recordIn_iff holds.spends
    (fun key member => (erased.spends key member).imp fun _ record => record.mono below) onDisk
  have mints := ChainContext.recordIn_iff holds.mints
    (fun key member => (erased.mints key member).imp fun _ record => record.mono below) onDisk
  constructor
  · intro after
    refine ⟨spends.mp ?_, mints.mp ?_⟩
    · have still := after.spends
      rw [wrote, chain] at still
      exact still
    · have still := after.mints
      rw [wrote, chain] at still
      exact still
  · intro again
    refine ⟨?_, ?_⟩
    · rw [wrote, chain]
      exact spends.mpr again.spends
    · rw [wrote, chain]
      exact mints.mpr again.mints

end

/-- **Verifying the databases leaves the zerocoin database intact** exactly if each
record of a block that is taken back is one of a block that is connected again. A
`DisconnectBlock`, whatever it returns and whatever view it works on, leaves it as it was
exactly if none of the records it comes to is there. -/
theorem verifyDB_intact_iff (ctx : ChainContext) (verify : VerifyContext) (nCheckLevel : Int)
    (state : ChainState) (coinsview : CoinsView) (nCheckDepth : Int)
    (holds : ctx.HoldsRecords state) :
    (ctx.HoldsRecords (verifyDB ctx verify nCheckLevel state coinsview nCheckDepth).1.node ↔
      ctx.ConnectsAgain verify nCheckLevel state coinsview nCheckDepth) ∧
    ∀ (vstate : CValidationState) (block : CBlock) (hash : Uint256) (view : CoinsView),
      (state.disconnectBlock ctx vstate block hash view).1.zerocoinDB = state.zerocoinDB ↔
        (∀ key ∈ (state.erasedBlock ctx vstate block hash view).spends,
          state.zerocoinDB.spends[key]? = none) ∧
        ∀ key ∈ (state.erasedBlock ctx vstate block hash view).mints,
          state.zerocoinDB.mints[key]? = none := by
  refine ⟨holdsRecords_node_iff ctx verify nCheckLevel state coinsview nCheckDepth holds, ?_⟩
  intro vstate block hash view
  rw [zerocoinDB_disconnectBlock, ErasedKeys.eraseFrom_eq_self_iff]

/-! ## A chain with a mint at its tip -/

/-- Eleven blocks, and on top of them one with a mint. -/
def mintAtTip (nHeight : Nat) : CBlock :=
  { blockAt (BitVec.ofNat 256 (100 + nHeight)) (BitVec.ofNat 256 (99 + nHeight))
      (regtestCoinBase nHeight ::
        if nHeight = 12 then
          [{ hash := 9000, vin := [{ prevout := ⟨1001, 0⟩, scriptSig := [1, 2] }]
             vout := [⟨COIN, [0xc1, 0, 0, 0, 0, 0, 7], -10⟩] }]
        else []) with
    nVersion := 5 }

/-- The chain is connected, and the node then verifies its blocks. -/
def mintedState : ChainState :=
  (List.range 12).foldl (fun state i =>
    (state.connectTip (.regtest mintAtTip) {} (BitVec.ofNat 256 (101 + i)) false).1)
    (.regtest mintAtTip)

def verifyingContext : ChainContext :=
  { ChainContext.regtest mintAtTip with fVerifyingBlocks := true }

/-- The disk can be read and the caches fit. A shutdown may be asked for. -/
def verifyUnder (shutdownRequested : Bool) : VerifyContext :=
  ⟨fun _ => true, fun _ => true, fun _ => shutdownRequested⟩

/-- A database is given by its entries. -/
theorem ChainContext.holdsRecords_of_toList {ctx : ChainContext} {state : ChainState}
    (spends : state.zerocoinDB.spends.toList =
      state.chainActive.flatMap fun hash =>
        (ctx.readBlockFromDisk hash).elim [] ctx.blockSpendRecords)
    (mints : state.zerocoinDB.mints.toList =
      state.chainActive.flatMap fun hash =>
        (ctx.readBlockFromDisk hash).elim [] ctx.blockMintRecords) : ctx.HoldsRecords state := by
  have listed : ∀ (records : CBlock → List (Nat × Uint256)) (key : Nat) (txid : Uint256),
      (key, txid) ∈ (state.chainActive.flatMap fun hash =>
        (ctx.readBlockFromDisk hash).elim [] records) ↔
      ctx.RecordIn records state.chainActive key txid := by
    intro records key txid
    rw [List.mem_flatMap]
    unfold ChainContext.RecordIn
    refine exists_congr fun hash => and_congr_right fun _ => ?_
    cases ctx.readBlockFromDisk hash with
    | none => simp
    | some block => simp
  refine ⟨?_, ?_⟩
  · intro key txid
    rw [← listed, ← spends, Std.ExtTreeMap.mem_toList_iff_getElem?_eq_some]
  · intro key txid
    rw [← listed, ← mints, Std.ExtTreeMap.mem_toList_iff_getElem?_eq_some]

theorem holdsRecords_mintedState : verifyingContext.HoldsRecords mintedState :=
  ChainContext.holdsRecords_of_toList (by decide +kernel) (by decide +kernel)

/-- The mint is taken back and connected again. -/
theorem verifyDB_intact_mintedState :
    verifyingContext.HoldsRecords mintedState ∧ verifyingContext.HoldsRecords
      (verifyDB verifyingContext (verifyUnder false) 4 mintedState
        mintedState.coinsTip 1).1.node := by
  refine ⟨holdsRecords_mintedState, ?_⟩
  apply (verifyDB_intact_iff verifyingContext (verifyUnder false) 4 mintedState
    mintedState.coinsTip 1 holdsRecords_mintedState).1.mpr
  refine ⟨?_, ?_⟩
  · decide +kernel
  · decide +kernel

/-- A shutdown that is asked for while the mint is taken back. `VerifyDB` returns true, and
the record is gone. -/
theorem not_verifyDB_intact_mintedState :
    ¬ ∀ (ctx : ChainContext) (verify : VerifyContext) (nCheckLevel : Int) (state : ChainState)
      (coinsview : CoinsView) (nCheckDepth : Int), ctx.HoldsRecords state →
      ctx.HoldsRecords (verifyDB ctx verify nCheckLevel state coinsview nCheckDepth).1.node := by
  intro intact
  have after := intact verifyingContext (verifyUnder true) 4 mintedState mintedState.coinsTip 1
    holdsRecords_mintedState
  have record : verifyingContext.RecordIn verifyingContext.blockMintRecords
      (verifyDB verifyingContext (verifyUnder true) 4 mintedState
        mintedState.coinsTip 1).1.node.chainActive 7 9000 :=
    ⟨112, by decide +kernel, mintAtTip 12, by decide +kernel, by decide +kernel⟩
  have found := (after.mints 7 9000).mpr record
  revert found
  decide +kernel

end GiantCore
