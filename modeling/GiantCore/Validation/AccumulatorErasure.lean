import GiantCore.Validation.ChainRun

/-! # The accumulator values that are erased

A checkpoint is eight checksums, one for each denomination, and the value of an
accumulator is stored under its checksum alone. The two functions that take checkpoints
back mean to keep the values of the checkpoint that stays. `EraseAccumulatorValues`
compares checksums of the same denomination, and so erases a value that stays under
another one. `EraseCheckpoints` looks for the whole checkpoint in the list of checksums to
keep, where it hardly ever is, and erases the values of every checkpoint in the range,
also where it is the one before the range.
-/

namespace GiantCore

open CoinDenomination

namespace AccumulatorStore

variable (store after : AccumulatorStore)

/-- There is no value for a checksum, neither in the database nor in memory. -/
def Vacant (nChecksum : UInt32) : Prop :=
  store.zerocoinDB nChecksum = none ∧ store.mapAccumulatorValues nChecksum = none

/-- **Every checksum of a checkpoint still has its value**, under whatever denomination. -/
def Keeps (nCheckpoint : Uint256) : Prop :=
  ∀ denom ∈ zerocoinDenomList, ∀ value,
    (store.zerocoinDB (parseChecksum nCheckpoint denom) = some value →
      after.zerocoinDB (parseChecksum nCheckpoint denom) = some value) ∧
    (store.mapAccumulatorValues (parseChecksum nCheckpoint denom) = some value →
      after.mapAccumulatorValues (parseChecksum nCheckpoint denom) = some value)

/-- `EraseChecksum` of each checksum of a list. -/
def eraseAll (checksums : List UInt32) : AccumulatorStore := checksums.foldl eraseChecksum store

theorem zerocoinDB_eraseAll (checksums : List UInt32) (nChecksum : UInt32) :
    (store.eraseAll checksums).zerocoinDB nChecksum =
      if nChecksum ∈ checksums then none else store.zerocoinDB nChecksum := by
  unfold eraseAll
  induction checksums generalizing store with
  | nil => simp
  | cons first rest ih =>
      rw [List.foldl_cons, ih]
      by_cases later : nChecksum ∈ rest
      · simp [later]
      · simp [later, eraseChecksum]

theorem mapAccumulatorValues_eraseAll (checksums : List UInt32) (nChecksum : UInt32) :
    (store.eraseAll checksums).mapAccumulatorValues nChecksum =
      if nChecksum ∈ checksums then none else store.mapAccumulatorValues nChecksum := by
  unfold eraseAll
  induction checksums generalizing store with
  | nil => simp
  | cons first rest ih =>
      rw [List.foldl_cons, ih]
      by_cases later : nChecksum ∈ rest
      · simp [later]
      · simp [later, eraseChecksum]

/-- Erasing keeps a checkpoint exactly if it comes to none of its values. -/
theorem keeps_eraseAll_iff (checksums : List UInt32) (nCheckpoint : Uint256) :
    store.Keeps (store.eraseAll checksums) nCheckpoint ↔
      ∀ denom ∈ zerocoinDenomList, parseChecksum nCheckpoint denom ∈ checksums →
        store.Vacant (parseChecksum nCheckpoint denom) := by
  unfold Keeps
  refine forall_congr' fun denom => forall_congr' fun _ => ?_
  rw [zerocoinDB_eraseAll, mapAccumulatorValues_eraseAll]
  by_cases erased : parseChecksum nCheckpoint denom ∈ checksums
  · simp only [erased, ↓reduceIte, reduceCtorEq, imp_false, true_imp_iff, Vacant]
    rw [forall_and, Option.eq_none_iff_forall_ne_some, Option.eq_none_iff_forall_ne_some]
  · simp [erased]

/-- A loop that erases some checksums erases the list of them. -/
theorem foldl_erase_unless {α : Type} (skip : α → Prop) [DecidablePred skip]
    (checksum : α → UInt32) (items : List α) :
    items.foldl (fun store item =>
      if skip item then store else store.eraseChecksum (checksum item)) store =
      store.eraseAll ((items.filter fun item => ¬ skip item).map checksum) := by
  unfold eraseAll
  induction items generalizing store with
  | nil => rfl
  | cons item rest ih =>
      rw [List.foldl_cons, ih]
      by_cases skipped : skip item
      · simp [skipped]
      · simp [skipped]

theorem eraseAll_append (first second : List UInt32) :
    store.eraseAll (first ++ second) = (store.eraseAll first).eraseAll second :=
  List.foldl_append

end AccumulatorStore

open AccumulatorStore

/-! ## The block that is disconnected -/

section

variable (store : AccumulatorStore) (nCheckpointErase nCheckpointPrevious : Uint256)

/-- A checksum of the erased checkpoint that differs from the previous one of its own
denomination is not a previous checksum of another denomination that has a value. -/
def ErasesApart : Prop :=
  ∀ denom ∈ zerocoinDenomList, ∀ other ∈ zerocoinDenomList,
    parseChecksum nCheckpointErase denom ≠ parseChecksum nCheckpointPrevious denom →
    parseChecksum nCheckpointErase denom = parseChecksum nCheckpointPrevious other →
    store.Vacant (parseChecksum nCheckpointPrevious other)

theorem keeps_eraseAccumulatorValues_iff :
    store.Keeps (ChainState.eraseAccumulatorValues nCheckpointErase nCheckpointPrevious store)
        nCheckpointPrevious ↔
      ErasesApart store nCheckpointErase nCheckpointPrevious := by
  have erased : ChainState.eraseAccumulatorValues nCheckpointErase nCheckpointPrevious store =
      store.eraseAll ((zerocoinDenomList.filter fun denom =>
        ¬ parseChecksum nCheckpointErase denom = parseChecksum nCheckpointPrevious denom).map
          (parseChecksum nCheckpointErase)) :=
    store.foldl_erase_unless _ _ _
  rw [erased, keeps_eraseAll_iff]
  constructor
  · intro vacant denom listed other present differs shared
    apply vacant other present
    rw [← shared]
    exact List.mem_map_of_mem (List.mem_filter.mpr ⟨listed, decide_eq_true differs⟩)
  · intro apart other present member
    obtain ⟨denom, kept, shared⟩ := List.mem_map.mp member
    obtain ⟨listed, differs⟩ := List.mem_filter.mp kept
    exact apart denom listed other present (of_decide_eq_true differs) shared

end

/-- What `DisconnectBlock` leaves of the accumulators. -/
theorem ChainState.accumulators_disconnectBlock {ctx : ChainContext} {state after : ChainState}
    {vstate : CValidationState} {block : CBlock} {hash hashPrev : Uint256} {view : CoinsView}
    {result : CoinsView × Bool} {pindex pprev : ChainIndex}
    (went : state.disconnectBlock ctx vstate block hash view = (after, .ok result))
    (index : state.mapBlockIndex hash = some pindex) (parent : pindex.hashPrev = some hashPrev)
    (previous : state.mapBlockIndex hashPrev = some pprev) :
    after.accumulators = (state.eraseCheckpointOf ctx pindex pprev).accumulators := by
  unfold disconnectBlock at went
  rw [index] at went
  dsimp only at went
  split at went
  · cases went
  · rw [parent] at went
    split at went
    · cases went
    · cases went
    · rename_i vtxundo hashBefore undoable same
      cases same
      split at went
      · cases went
      · rw [previous] at went
        split at went
        · cases went
        · rename_i found
          cases found
        · rename_i other undone found
          cases found
          cases went
          unfold eraseCheckpointOf
          split
          · rfl
          · rfl

/-- A checkpoint that does not change is kept. -/
theorem erasesApart_self (store : AccumulatorStore) (nCheckpoint : Uint256) :
    ErasesApart store nCheckpoint nCheckpoint := by
  intro denom _ other _ differs
  exact absurd rfl differs

/-- The block is disconnected with its checkpoint, or blocks are only verified. -/
theorem ChainState.keeps_eraseCheckpointOf_iff {ctx : ChainContext} {state : ChainState}
    {pindex pprev : ChainIndex} :
    state.accumulators.Keeps (state.eraseCheckpointOf ctx pindex pprev).accumulators
        pprev.nAccumulatorCheckpoint ↔
      (ctx.fVerifyingBlocks = false → ErasesApart state.accumulators pindex.nAccumulatorCheckpoint
        pprev.nAccumulatorCheckpoint) := by
  unfold eraseCheckpointOf
  cases ctx.fVerifyingBlocks with
  | true => simp [Keeps]
  | false =>
      by_cases same : pindex.nAccumulatorCheckpoint = pprev.nAccumulatorCheckpoint
      · simp [same, Keeps, erasesApart_self]
      · simp [same, keeps_eraseAccumulatorValues_iff]

/-! ## A range of blocks -/

section

variable (ctx : AccumulatorContext) (nStartHeight nEndHeight : Int) (store : AccumulatorStore)

/-- The blocks whose checkpoints `EraseCheckpoints` erases. -/
def AccumulatorContext.erasedBlocks : List ChainEntry :=
  (ctx.chainActive.drop nStartHeight.toNat).take
    ((min (ctx.chainActive.length - 1 : Int) nEndHeight - nStartHeight).toNat + 1)

/-- A checkpoint of the range, if it is no number among the checksums to keep, has no
checksum in common with the one before the range that has a value. -/
def RangeApart (nCheckpointPrev : Uint256) : Prop :=
  ∀ entry ∈ ctx.erasedBlocks nStartHeight nEndHeight,
    (∀ denom ∈ zerocoinDenomList, (parseChecksum nCheckpointPrev denom).toBitVec.setWidth 256 ≠
      entry.nAccumulatorCheckpoint) →
    ∀ denom ∈ zerocoinDenomList, ∀ other ∈ zerocoinDenomList,
      parseChecksum entry.nAccumulatorCheckpoint denom = parseChecksum nCheckpointPrev other →
      store.Vacant (parseChecksum nCheckpointPrev other)

/-- The checksums that go with one checkpoint. -/
def erasedChecksums (listCheckpointsPrev : List UInt32) (nCheckpointDelete : Uint256) :
    List UInt32 :=
  if listCheckpointsPrev.any fun kept => kept.toBitVec.setWidth 256 == nCheckpointDelete then []
  else zerocoinDenomList.map (parseChecksum nCheckpointDelete)

theorem eraseCheckpoint_eq (listCheckpointsPrev : List UInt32) (nCheckpointDelete : Uint256) :
    eraseCheckpoint listCheckpointsPrev store nCheckpointDelete =
      store.eraseAll (erasedChecksums listCheckpointsPrev nCheckpointDelete) := by
  have loop := store.foldl_erase_unless (fun _ : CoinDenomination =>
    (listCheckpointsPrev.any fun kept => kept.toBitVec.setWidth 256 == nCheckpointDelete) = true)
    (parseChecksum nCheckpointDelete) zerocoinDenomList
  refine loop.trans ?_
  unfold erasedChecksums
  split
  · rename_i kept
    simp [kept]
  · rename_i erased
    simp [erased]

theorem foldl_eraseCheckpoint (listCheckpointsPrev : List UInt32) (entries : List ChainEntry) :
    entries.foldl (fun store entry =>
      eraseCheckpoint listCheckpointsPrev store entry.nAccumulatorCheckpoint) store =
      store.eraseAll (entries.flatMap fun entry =>
        erasedChecksums listCheckpointsPrev entry.nAccumulatorCheckpoint) := by
  induction entries generalizing store with
  | nil => rfl
  | cons entry rest ih =>
      rw [List.foldl_cons, ih, List.flatMap_cons, eraseAll_append, eraseCheckpoint_eq]

variable {ctx nStartHeight nEndHeight store}

/-- What `EraseCheckpoints` erases where it goes through. -/
theorem eraseCheckpoints_eq_ok {after : AccumulatorStore} {pprev : ChainEntry}
    (went : eraseCheckpoints ctx nStartHeight nEndHeight store = .ok (some after))
    (previous : ctx.indexAt (nStartHeight - 1) = .ok pprev) :
    after = store.eraseAll ((ctx.erasedBlocks nStartHeight nEndHeight).flatMap fun entry =>
      erasedChecksums (zerocoinDenomList.map (parseChecksum pprev.nAccumulatorCheckpoint))
        entry.nAccumulatorCheckpoint) := by
  rw [← foldl_eraseCheckpoint]
  unfold eraseCheckpoints at went
  dsimp only at went
  split at went
  · cases went
  · rw [previous] at went
    injection went with same
    injection same with same
    exact same.symm

theorem keeps_eraseCheckpoints_iff {after : AccumulatorStore} {pprev : ChainEntry}
    (went : eraseCheckpoints ctx nStartHeight nEndHeight store = .ok (some after))
    (previous : ctx.indexAt (nStartHeight - 1) = .ok pprev) :
    store.Keeps after pprev.nAccumulatorCheckpoint ↔
      RangeApart ctx nStartHeight nEndHeight store pprev.nAccumulatorCheckpoint := by
  rw [eraseCheckpoints_eq_ok went previous, keeps_eraseAll_iff]
  constructor
  · intro vacant entry member unlisted denom listed other present shared
    apply vacant other present
    rw [← shared, List.mem_flatMap]
    refine ⟨entry, member, ?_⟩
    have erased : ((zerocoinDenomList.map (parseChecksum pprev.nAccumulatorCheckpoint)).any
        fun kept => kept.toBitVec.setWidth 256 == entry.nAccumulatorCheckpoint) = false := by
      rw [List.any_eq_false]
      intro kept inside same
      obtain ⟨name, here, rfl⟩ := List.mem_map.mp inside
      exact unlisted name here (beq_iff_eq.mp same)
    rw [erasedChecksums, erased]
    exact List.mem_map_of_mem listed
  · intro apart other present member
    obtain ⟨entry, inside, erased⟩ := List.mem_flatMap.mp member
    unfold erasedChecksums at erased
    split at erased
    · cases erased
    · rename_i unlisted
      obtain ⟨denom, listed, shared⟩ := List.mem_map.mp erased
      refine apart entry inside ?_ denom listed other present shared
      intro name here same
      apply unlisted
      rw [List.any_eq_true]
      exact ⟨_, List.mem_map_of_mem here, beq_iff_eq.mpr same⟩

end

/-- **Live accumulator values.** `EraseCheckpoints` keeps the values of the checkpoint
before its range, and `DisconnectBlock` those of the checkpoint of the remaining tip,
exactly if no checksum they erase is one of these. -/
theorem live_values_kept_iff (ctx : AccumulatorContext) (nStartHeight nEndHeight : Int)
    (store : AccumulatorStore) (chain : ChainContext) (state : ChainState) :
    (∀ after pprev, eraseCheckpoints ctx nStartHeight nEndHeight store = .ok (some after) →
      ctx.indexAt (nStartHeight - 1) = .ok pprev →
      (store.Keeps after pprev.nAccumulatorCheckpoint ↔
        RangeApart ctx nStartHeight nEndHeight store pprev.nAccumulatorCheckpoint)) ∧
    ∀ vstate block hash hashPrev view after result pindex pprev,
      state.disconnectBlock chain vstate block hash view = (after, .ok result) →
      state.mapBlockIndex hash = some pindex → pindex.hashPrev = some hashPrev →
      state.mapBlockIndex hashPrev = some pprev →
      (state.accumulators.Keeps after.accumulators pprev.nAccumulatorCheckpoint ↔
        (chain.fVerifyingBlocks = false → ErasesApart state.accumulators
          pindex.nAccumulatorCheckpoint pprev.nAccumulatorCheckpoint)) := by
  refine ⟨fun after pprev went previous => keeps_eraseCheckpoints_iff went previous, ?_⟩
  intro vstate block hash hashPrev view after result pindex pprev went index parent previous
  rw [ChainState.accumulators_disconnectBlock went index parent previous]
  exact ChainState.keeps_eraseCheckpointOf_iff

/-! ## Checksums that stay -/

/-- The checkpoint with the given checksums. -/
def packedCheckpoint (checksums : List Nat) : Uint256 :=
  BitVec.ofNat 256 (checksums.foldl (fun nCheckpoint checksum => nCheckpoint <<< 32 + checksum) 0)

/-- Two blocks with checkpoints. -/
def erasureContext (first second : Uint256) : AccumulatorContext :=
  { quietContext 2 with chainActive := [⟨first, none⟩, ⟨second, none⟩] }

/-- Every checksum has a value. -/
def fullStore : AccumulatorStore where
  zerocoinDB _ := some 1
  mapAccumulatorValues _ := some 1

/-- A regtest chain of 310 blocks whose last one changes the checkpoint. -/
def erasureState (first second : Uint256) : ChainState :=
  { ChainState.genesis [] with
    mapBlockIndex := fun hash =>
      if 100 < hash.toNat ∧ hash.toNat ≤ 410 then
        some
          { hashPrev := some (hash - 1), nHeight := hash.toNat - 100, nVersion := 5
            nAccumulatorCheckpoint :=
              if hash.toNat < 400 then 0 else if hash.toNat < 410 then first else second
            vtxundo := some [] }
      else if hash = 100 then some .genesis
      else none
    chainActive := (List.range 311).map fun nHeight => BitVec.ofNat 256 (100 + nHeight)
    coinsTip := ⟨fun hash => if hash = 1310 then .fromTx (regtestCoinBase 310) 310 else .clear, 410⟩
    accumulators := fullStore }

/-- Its last block. -/
def erasureBlock : CBlock := blockAt 410 409 [regtestCoinBase 310]

/-- It can be disconnected. -/
theorem disconnectBlock_erasureState (first second : Uint256) :
    ∃ after result, (erasureState first second).disconnectBlock (.regtest fun _ => erasureBlock) {}
      erasureBlock 410 (erasureState first second).coinsTip = (after, .ok result) :=
  ⟨_, _, rfl⟩

/-- Every checksum changes in the range, and one does in the block that is disconnected. -/
theorem live_values_kept_changed :
    (∃ after, eraseCheckpoints (erasureContext (packedCheckpoint [1, 2, 3, 4, 5, 6, 7, 8])
        (packedCheckpoint [11, 12, 13, 14, 15, 16, 17, 18])) 1 1 fullStore = .ok (some after) ∧
      fullStore.Keeps after (packedCheckpoint [1, 2, 3, 4, 5, 6, 7, 8])) ∧
    ∃ after result, (erasureState (packedCheckpoint [1, 2, 3, 4, 5, 6, 7, 8])
        (packedCheckpoint [11, 2, 3, 4, 5, 6, 7, 8])).disconnectBlock
            (.regtest fun _ => erasureBlock) {}
        erasureBlock 410 (erasureState (packedCheckpoint [1, 2, 3, 4, 5, 6, 7, 8])
          (packedCheckpoint [11, 2, 3, 4, 5, 6, 7, 8])).coinsTip = (after, .ok result) ∧
      fullStore.Keeps after.accumulators (packedCheckpoint [1, 2, 3, 4, 5, 6, 7, 8]) := by
  have kept := live_values_kept_iff (erasureContext (packedCheckpoint [1, 2, 3, 4, 5, 6, 7, 8])
    (packedCheckpoint [11, 12, 13, 14, 15, 16, 17, 18])) 1 1 fullStore
        (.regtest fun _ => erasureBlock)
    (erasureState (packedCheckpoint [1, 2, 3, 4, 5, 6, 7, 8])
        (packedCheckpoint [11, 2, 3, 4, 5, 6, 7, 8]))
  refine ⟨⟨_, rfl, (kept.1 _ _ rfl rfl).mpr ?_⟩, ?_⟩
  · have differ : ∀ denom ∈ zerocoinDenomList, ∀ other ∈ zerocoinDenomList,
        parseChecksum (packedCheckpoint [11, 12, 13, 14, 15, 16, 17, 18]) denom ≠
          parseChecksum (packedCheckpoint [1, 2, 3, 4, 5, 6, 7, 8]) other := by
      decide +kernel
    intro entry member _ denom listed other present shared
    rw [List.mem_singleton.mp member] at shared
    exact absurd shared (differ denom listed other present)
  · obtain ⟨after, result, went⟩ := disconnectBlock_erasureState
      (packedCheckpoint [1, 2, 3, 4, 5, 6, 7, 8]) (packedCheckpoint [11, 2, 3, 4, 5, 6, 7, 8])
    refine ⟨after, result, went, (kept.2 _ _ _ _ _ _ _ _ _ went rfl rfl rfl).mpr ?_⟩
    have differ : ∀ denom ∈ zerocoinDenomList, ∀ other ∈ zerocoinDenomList,
        parseChecksum (packedCheckpoint [11, 2, 3, 4, 5, 6, 7, 8]) denom ≠
          parseChecksum (packedCheckpoint [1, 2, 3, 4, 5, 6, 7, 8]) denom →
        parseChecksum (packedCheckpoint [11, 2, 3, 4, 5, 6, 7, 8]) denom ≠
          parseChecksum (packedCheckpoint [1, 2, 3, 4, 5, 6, 7, 8]) other := by
      decide +kernel
    intro _ denom listed other present changed shared
    exact absurd shared (differ denom listed other present changed)

/-- The values of a checkpoint that did not change are erased with the range, and the value
of one denomination when another one has its checksum in the block that is disconnected. -/
theorem not_live_values_kept_shared :
    (¬ ∀ (ctx : AccumulatorContext) (nStartHeight nEndHeight : Int)
      (store after : AccumulatorStore) (pprev : ChainEntry),
      eraseCheckpoints ctx nStartHeight nEndHeight store = .ok (some after) →
      ctx.indexAt (nStartHeight - 1) = .ok pprev →
      store.Keeps after pprev.nAccumulatorCheckpoint) ∧
    ¬ ∀ (chain : ChainContext) (state : ChainState) (vstate : CValidationState) (block : CBlock)
      (hash hashPrev : Uint256) (view : CoinsView) (after : ChainState)
      (result : CoinsView × Bool) (pindex pprev : ChainIndex),
      state.disconnectBlock chain vstate block hash view = (after, .ok result) →
      state.mapBlockIndex hash = some pindex → pindex.hashPrev = some hashPrev →
      state.mapBlockIndex hashPrev = some pprev →
      state.accumulators.Keeps after.accumulators pprev.nAccumulatorCheckpoint := by
  constructor
  · intro always
    have kept := always (erasureContext (packedCheckpoint [1, 2, 3, 4, 5, 6, 7, 8])
      (packedCheckpoint [1, 2, 3, 4, 5, 6, 7, 8])) 1 1 fullStore _ _ rfl rfl
    have value := (kept .one (by decide) 1).1 rfl
    revert value
    decide +kernel
  · intro always
    obtain ⟨after, result, went⟩ := disconnectBlock_erasureState
      (packedCheckpoint [1, 2, 3, 4, 5, 6, 7, 8]) (packedCheckpoint [2, 2, 3, 4, 5, 6, 7, 8])
    have kept := always _ _ _ _ _ _ _ _ _ _ _ went rfl rfl rfl
    rw [ChainState.accumulators_disconnectBlock went rfl rfl rfl] at kept
    have value := (kept .five (by decide) 1).1 rfl
    revert value
    decide +kernel

end GiantCore
