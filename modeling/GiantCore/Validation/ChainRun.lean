import GiantCore.Foundation.Run
import GiantCore.Validation.ConnectBlock

/-! # Runs of the node

Calls of `ConnectTip` and `DisconnectTip` one after the other, in any order, with
the failed ones. What one call does to the state is said here once: a failed
`ConnectTip` leaves the chain, the coins and the databases alone, a failed
`DisconnectTip` may have erased zerocoins. The active chain stays a path through
the block index (`ChainState.Linked`).
-/

namespace GiantCore

open CValidationState

namespace ChainState

/-! ## What the recalculations leave alone -/

/-- The block indexes are those of the same blocks. -/
structure SameIndexes (before after : ChainState) : Prop where
  found : ∀ hash pindex, before.mapBlockIndex hash = some pindex →
    ∃ pindex', after.mapBlockIndex hash = some pindex' ∧ pindex.SameBlock pindex'
  missing : ∀ hash, before.mapBlockIndex hash = none → after.mapBlockIndex hash = none

namespace SameIndexes

/-- An index that stays the same. -/
theorem of_eq {before after : ChainState} (same : after.mapBlockIndex = before.mapBlockIndex) :
    SameIndexes before after where
  found _ pindex index := ⟨pindex, same ▸ index, .refl pindex⟩
  missing _ index := same ▸ index

/-- One change of the indexes after another. -/
theorem trans {first second third : ChainState} (before : SameIndexes first second)
    (after : SameIndexes second third) : SameIndexes first third where
  found hash pindex index := by
    obtain ⟨middle, there, same⟩ := before.found hash pindex index
    obtain ⟨last, here, next⟩ := after.found hash middle there
    exact ⟨last, here, same.trans next⟩
  missing hash index := after.missing hash (before.missing hash index)

/-- An entry of the same block may take the place of another. -/
theorem setIndex {state : ChainState} {hash : Uint256} {pindex pindex' : ChainIndex}
    (index : state.mapBlockIndex hash = some pindex) (same : pindex.SameBlock pindex') :
    SameIndexes state (state.setIndex hash pindex') where
  found other found there := by
    by_cases equal : other = hash
    · subst equal
      rw [index] at there
      cases there
      exact ⟨pindex', setIndex_self .., same⟩
    · exact ⟨found, by rw [setIndex_of_ne _ _ equal, there], .refl found⟩
  missing other there := by
    by_cases equal : other = hash
    · subst equal
      rw [index] at there
      cases there
    · rw [setIndex_of_ne _ _ equal, there]

end SameIndexes

/-- Two states that differ at most in the supply that block indexes record. -/
structure SameBeside (before after : ChainState) : Prop where
  indexes : SameIndexes before after
  chainActive : after.chainActive = before.chainActive
  coinsTip : after.coinsTip = before.coinsTip
  zerocoinDB : after.zerocoinDB = before.zerocoinDB
  accumulators : after.accumulators = before.accumulators
  txIndex : after.txIndex = before.txIndex

namespace SameBeside

/-- Nothing changes. -/
theorem refl (state : ChainState) : SameBeside state state :=
  ⟨.of_eq rfl, rfl, rfl, rfl, rfl, rfl⟩

/-- One change beside the coins after another. -/
theorem trans {first second third : ChainState} (before : SameBeside first second)
    (after : SameBeside second third) : SameBeside first third where
  indexes := before.indexes.trans after.indexes
  chainActive := after.chainActive.trans before.chainActive
  coinsTip := after.coinsTip.trans before.coinsTip
  zerocoinDB := after.zerocoinDB.trans before.zerocoinDB
  accumulators := after.accumulators.trans before.accumulators
  txIndex := after.txIndex.trans before.txIndex

/-- Setting an index entry of the same block keeps the rest. -/
theorem setIndex {state : ChainState} {hash : Uint256} {pindex pindex' : ChainIndex}
    (index : state.mapBlockIndex hash = some pindex) (same : pindex.SameBlock pindex') :
    SameBeside state (state.setIndex hash pindex') :=
  ⟨.setIndex index same, rfl, rfl, rfl, rfl, rfl⟩

/-- Writing an index entry to disk keeps the rest. -/
theorem writeBlockIndex (state : ChainState) (hash : Uint256) :
    SameBeside state (state.writeBlockIndex hash) := ⟨.of_eq rfl, rfl, rfl, rfl, rfl, rfl⟩

/-- Setting the entry that a reference stands for keeps the rest. -/
theorem setRef {state : ChainState} {ref : IndexRef} {pindex pindex' : ChainIndex}
    (index : state.index ref = some pindex) (same : pindex.SameBlock pindex') :
    SameBeside state (state.setRef pindex' ref) := by
  cases ref with
  | entry hash => exact setIndex index same
  | dummy _ => exact refl state

end SameBeside

variable {ctx : ChainContext}

/-- A loop whose rounds change at most block indexes. -/
theorem sameBeside_foldlM {α : Type} {round : ChainState → α → Except AcceptFailure ChainState}
    (rounds : ∀ item before after, round before item = .ok after → SameBeside before after)
    {items : List α} {before after : ChainState}
    (ran : items.foldlM round before = .ok after) : SameBeside before after := by
  have loop := Foundation.Checks.forall_of_foldlM_eq_ok SameBeside (fun _ _ => True)
    SameBeside.refl SameBeside.trans (fun done _ => done)
    (fun item _ before after went => ⟨rounds item before after went, trivial⟩) ran
  exact loop.1

/-- The recalculation of mints changes numbers in the index only. -/
theorem sameBeside_recalculateMinted {before after : ChainState} {hash : Uint256}
    (went : recalculateMinted ctx before hash = .ok after) : SameBeside before after := by
  simp only [recalculateMinted, Foundation.Checks.bind_eq_ok, orUndefined_eq_ok] at went
  obtain ⟨pindex, index, _, -, same⟩ := went
  cases same
  exact SameBeside.setIndex index ⟨rfl, rfl, rfl, rfl, rfl⟩

/-- Taking spends off the supply keeps the block of an entry. -/
theorem sameBlock_foldl_subtractSpend (pindex : ChainIndex) (spends : List CoinDenomination) :
    pindex.SameBlock (spends.foldl ChainIndex.subtractSpend pindex) := by
  induction spends generalizing pindex with
  | nil => exact .refl pindex
  | cons denom rest ih =>
      have first : pindex.SameBlock (pindex.subtractSpend denom) := ⟨rfl, rfl, rfl, rfl, rfl⟩
      exact first.trans (ih (pindex.subtractSpend denom))

/-- The recalculation of spends changes numbers in the index only. -/
theorem sameBeside_recalculateSpent {accumulatorV1 : Bool} {before after : ChainState}
    {hash : Uint256} (went : recalculateSpent ctx accumulatorV1 before hash = .ok after) :
    SameBeside before after := by
  simp only [recalculateSpent, Foundation.Checks.bind_eq_ok, orUndefined_eq_ok] at went
  obtain ⟨pindex, index, _, -, spends, -, pprev, -, went⟩ := went
  split at went
  · simp [throw, throwThe, MonadExceptOf.throw] at went
  · cases went
    have minted : pindex.SameBlock ({ pindex with
        mapZerocoinSupply := pprev.mapZerocoinSupply }.addMints
          pindex.vMintDenominationsInBlock) := ⟨rfl, rfl, rfl, rfl, rfl⟩
    have spent := minted.trans (sameBlock_foldl_subtractSpend _ spends)
    apply SameBeside.trans (SameBeside.setIndex index _) (SameBeside.writeBlockIndex ..)
    split
    · exact spent.trans ⟨rfl, rfl, rfl, rfl, rfl⟩
    · exact spent

/-- The recalculation of one block changes numbers in the index only. -/
theorem sameBeside_recalculateSupply {before after : ChainState × CAmount} {hash : Uint256}
    (went : recalculateSupply ctx before hash = .ok after) : SameBeside before.1 after.1 := by
  simp only [recalculateSupply, Foundation.Checks.bind_eq_ok, orUndefined_eq_ok] at went
  obtain ⟨pindex, index, _, -, _, -, same⟩ := went
  cases same
  apply SameBeside.trans (SameBeside.setIndex index _) (SameBeside.writeBlockIndex ..)
  exact ⟨rfl, rfl, rfl, rfl, rfl⟩

/-- The recalculation of the money supply changes numbers in the index only. -/
theorem sameBeside_recalculateGICSupply {before after : ChainState} {nHeightStart : Int}
    {result : Bool} (went : before.recalculateGICSupply ctx nHeightStart = .ok (after, result)) :
    SameBeside before after := by
  unfold recalculateGICSupply at went
  split at went
  · cases went
    exact SameBeside.refl _
  · simp only [Foundation.Checks.bind_eq_ok] at went
    obtain ⟨_, -, _, -, _, -, ⟨last, _⟩, ran, same⟩ := went
    cases same
    have loop := Foundation.Checks.forall_of_foldlM_eq_ok
      (fun before after : ChainState × CAmount => SameBeside before.1 after.1)
      (fun _ _ => True) (fun _ => SameBeside.refl _) SameBeside.trans (fun done _ => done)
      (fun item _ before after went => ⟨sameBeside_recalculateSupply went, trivial⟩) ran
    exact loop.1

/-- **The recalculations** change nothing but block indexes. -/
theorem sameBeside_recalculate {before after : ChainState} {nHeight : Int}
    (went : before.recalculate ctx nHeight = .ok after) : SameBeside before after := by
  unfold recalculate at went
  split at went
  · simp only [Foundation.Checks.bind_eq_ok] at went
    obtain ⟨minted, first, spent, second, ⟨supply, _⟩, third, same⟩ := went
    cases same
    simp only [recalculateZGICMinted, Foundation.Checks.bind_eq_ok] at first
    obtain ⟨_, -, first⟩ := first
    simp only [recalculateZGICSpent, Foundation.Checks.bind_eq_ok] at second
    obtain ⟨_, -, second⟩ := second
    have minting := sameBeside_foldlM (fun _ _ _ => sameBeside_recalculateMinted) first
    have spending := sameBeside_foldlM (fun _ _ _ => sameBeside_recalculateSpent) second
    exact (minting.trans spending).trans (sameBeside_recalculateGICSupply third)
  · cases went
    exact SameBeside.refl _

/-! ## The parts of `ConnectBlock` -/

section

variable {state : ChainState} {block : CBlock} {vstate : CValidationState} {ref : IndexRef}
  {budgetState : BudgetState} {pindex : ChainIndex} {effects : BlockEffects}

/-- The last checks change nothing but the accumulator values. -/
theorem checkBooked_fst (state : ChainState) :
    (state.checkBooked ctx block vstate budgetState effects pindex).1 = { state with
      accumulators :=
        (state.checkBooked ctx block vstate budgetState effects pindex).1.accumulators } := by
  unfold checkBooked
  split
  · rfl
  · rfl

/-- The checks after the bookkeeping change the accumulators only. -/
theorem checkBooked_eq {last : ChainState} {result : Except AcceptFailure AccumulatorMap}
    (checks : state.checkBooked ctx block vstate budgetState effects pindex = (last, result)) :
    last = { state with accumulators := last.accumulators } := by
  have passed : (state.checkBooked ctx block vstate budgetState effects pindex).1 = _ :=
    checkBooked_fst state
  rwa [checks] at passed

/-- What a booking that goes through writes. -/
theorem bookSupply_cases {nHeight : Int} {booked : ChainState} {bookedIndex : ChainIndex}
    (books : state.bookSupply ctx block vstate ref nHeight effects = (booked, .ok bookedIndex)) :
    ∃ (middle : ChainState) (found updated : ChainIndex),
      state.recalculate ctx nHeight = .ok middle ∧ middle.index ref = some found ∧
      booked = middle.setRef bookedIndex ref ∧ found.SameBlock updated ∧
      bookedIndex = bookAmounts effects (middle.pprev found) updated := by
  unfold bookSupply at books
  split at books
  · cases books
  · rename_i middle recalculates
    split at books
    · cases books
    · rename_i found index
      have same := ChainIndex.SameBlock.updateZGICSupply ctx (ctx.validationAt middle).useModulusV1
        block found (middle.pprev found) vstate
      rcases updates : updateZGICSupply ctx (ctx.validationAt middle).useModulusV1 block found
        (middle.pprev found) vstate with ⟨updated, failure | _⟩
      · simp [updates] at books
      · simp only [updates] at books same
        cases books
        exact ⟨middle, found, updated, recalculates, index, rfl, same, rfl⟩

/-- The index that is booked is one of the same block. -/
theorem sameBlock_of_bookSupply {nHeight : Int} {booked : ChainState} {bookedIndex : ChainIndex}
    (books : state.bookSupply ctx block vstate ref nHeight effects = (booked, .ok bookedIndex)) :
    ∃ after found, state.recalculate ctx nHeight = .ok after ∧ after.index ref = some found ∧
      booked = after.setRef bookedIndex ref ∧ found.SameBlock bookedIndex := by
  obtain ⟨middle, found, updated, recalculates, index, wrote, same, rfl⟩ := bookSupply_cases books
  exact ⟨middle, found, recalculates, index, wrote, same.trans ⟨rfl, rfl, rfl, rfl, rfl⟩⟩

/-- Away from the one height nothing is recalculated. -/
theorem recalculate_of_ne {nHeight : Int}
    (other : nHeight ≠ ctx.params.nBlockRecalculateAccumulators + 1) :
    state.recalculate ctx nHeight = .ok state := by
  unfold recalculate
  rw [if_neg other]
  rfl

/-- Booking changes nothing but the supply that block indexes record, whether or not
it fails. -/
theorem sameBeside_bookSupply (nHeight : Int) :
    SameBeside state (state.bookSupply ctx block vstate ref nHeight effects).1 := by
  unfold bookSupply
  split
  · exact .refl state
  · rename_i after recalculates
    have before := sameBeside_recalculate recalculates
    split
    · exact before
    · rename_i found index
      have same := ChainIndex.SameBlock.updateZGICSupply ctx (ctx.validationAt after).useModulusV1
        block found (after.pprev found) vstate
      rcases updates : updateZGICSupply ctx (ctx.validationAt after).useModulusV1 block found
        (after.pprev found) vstate with ⟨updated, failure | _⟩
      · rw [updates] at same
        simp only [updates]
        exact before.trans (.setRef index same)
      · rw [updates] at same
        simp only [updates]
        exact before.trans (.setRef index (same.trans ⟨rfl, rfl, rfl, rfl, rfl⟩))

/-- Away from the one height booking writes one entry, with the supply of zerocoins that
`UpdateZGICSupply` leaves. -/
theorem bookSupply_of_ne {nHeight : Int} {hash : Uint256}
    (quiet : nHeight ≠ ctx.params.nBlockRecalculateAccumulators + 1)
    (index : state.mapBlockIndex hash = some pindex) :
    ∃ written, (state.bookSupply ctx block vstate (.entry hash) nHeight effects).1 =
        state.setIndex hash written ∧
      written.mapZerocoinSupply = (updateZGICSupply ctx (ctx.validationAt state).useModulusV1
        block pindex (state.pprev pindex) vstate).1.mapZerocoinSupply := by
  have index : state.index (.entry hash) = some pindex := index
  simp only [bookSupply, recalculate_of_ne quiet, index]
  rcases updateZGICSupply ctx (ctx.validationAt state).useModulusV1 block pindex
    (state.pprev pindex) vstate with ⟨updated, failure | _⟩
  · exact ⟨updated, rfl, rfl⟩
  · exact ⟨_, rfl, rfl⟩

/-- What is booked there if the booking goes through. -/
theorem bookSupply_eq_ok {nHeight : Int} {hash : Uint256} {booked : ChainState}
    {bookedIndex : ChainIndex}
    (quiet : nHeight ≠ ctx.params.nBlockRecalculateAccumulators + 1)
    (index : state.mapBlockIndex hash = some pindex)
    (books : state.bookSupply ctx block vstate (.entry hash) nHeight effects =
      (booked, .ok bookedIndex)) :
    booked = state.setIndex hash bookedIndex ∧ ∃ updated,
      updateZGICSupply ctx (ctx.validationAt state).useModulusV1 block pindex
        (state.pprev pindex) vstate = (updated, .ok ()) ∧
      bookedIndex = bookAmounts effects (state.pprev pindex) updated := by
  have index : state.index (.entry hash) = some pindex := index
  simp only [bookSupply, recalculate_of_ne quiet, index] at books
  rcases updates : updateZGICSupply ctx (ctx.validationAt state).useModulusV1 block pindex
    (state.pprev pindex) vstate with ⟨updated, failure | _⟩
  · simp [updates] at books
  · simp only [updates] at books
    cases books
    exact ⟨rfl, updated, rfl, rfl⟩

end

/-! ## One call -/

section

variable {state after : ChainState} {vstate : CValidationState} {hash : Uint256}
  {fAlreadyChecked : Bool}

/-- What a call that fails leaves alone. -/
structure SameChain (before after : ChainState) : Prop where
  indexes : SameIndexes before after
  chainActive : after.chainActive = before.chainActive
  coinsTip : after.coinsTip = before.coinsTip
  txIndex : after.txIndex = before.txIndex

/-- What `ConnectBlock` does where it fails. -/
structure RefusesTip (ctx : ChainContext) (vstate : CValidationState) (block : CBlock)
    (hash : Uint256) (pindex : ChainIndex) (before after : ChainState) : Prop
    extends SameChain before after where
  zerocoinDB : after.zerocoinDB = before.zerocoinDB
  others : pindex.nHeight ≠ ctx.params.nBlockRecalculateAccumulators + 1 →
    ∀ other, other ≠ hash → after.mapBlockIndex other = before.mapBlockIndex other
  entry : pindex.nHeight ≠ ctx.params.nBlockRecalculateAccumulators + 1 →
    after.mapBlockIndex hash = some pindex ∨ ∃ written, after.mapBlockIndex hash = some written ∧
      written.mapZerocoinSupply = (updateZGICSupply ctx (ctx.validationAt before).useModulusV1
        block pindex (before.pprev pindex) vstate).1.mapZerocoinSupply

/-- **A call of `ConnectTip` that goes through.** -/
structure ConnectsTip (ctx : ChainContext) (state : ChainState) (vstate : CValidationState)
    (hash : Uint256) (after : ChainState) (pindex : ChainIndex) (block : CBlock)
    (effects : BlockEffects) (booked : ChainState) (bookedIndex : ChainIndex) : Prop where
  index : state.mapBlockIndex hash = some pindex
  disk : ctx.readBlockFromDisk hash = some block
  parent : pindex.hashPrev = state.chainActive.getLast?
  bestBlock : pindex.hashPrev.getD 0 = state.coinsTip.hashBlock
  transactions : state.connectTransactions ctx block vstate (.entry hash) pindex state.coinsTip =
    .ok effects
  books : state.bookSupply ctx block vstate (.entry hash) pindex.nHeight effects =
    (booked, .ok bookedIndex)
  entry : after.mapBlockIndex hash = some { bookedIndex with
    vtxundo := some (bookedIndex.vtxundo.getD effects.vtxundo) }
  others : ∀ other, other ≠ hash → after.mapBlockIndex other = booked.mapBlockIndex other
  chainActive : after.chainActive = state.chainActive ++ [hash]
  coinsTip : after.coinsTip = ⟨effects.loop.connect.view, hash⟩
  zerocoinDB : after.zerocoinDB =
    (state.zerocoinDB.writeCoinSpendBatch effects.loop.connect.vSpends).writeCoinMintBatch
      effects.loop.connect.vMints
  txIndex : after.txIndex = fun txid =>
    if block.vtx.any fun tx => tx.hash == txid then some hash else state.txIndex txid

section

variable {block : CBlock} {pindex : ChainIndex}

/-- A block that is refused at once changes nothing. -/
theorem RefusesTip.refl (ctx : ChainContext) (vstate : CValidationState) (block : CBlock)
    (index : state.mapBlockIndex hash = some pindex) :
    RefusesTip ctx vstate block hash pindex state state where
  indexes := .of_eq rfl
  chainActive := rfl
  coinsTip := rfl
  txIndex := rfl
  zerocoinDB := rfl
  others _ _ _ := rfl
  entry _ := Or.inl index

/-- The state after the bookkeeping, with whatever accumulator values. -/
theorem RefusesTip.bookSupply {effects : BlockEffects} {booked : ChainState}
    {result : Except AcceptFailure ChainIndex} (index : state.mapBlockIndex hash = some pindex)
    (books : state.bookSupply ctx block vstate (.entry hash) pindex.nHeight effects =
      (booked, result)) (store : AccumulatorStore) :
    RefusesTip ctx vstate block hash pindex state { booked with accumulators := store } := by
  have same : SameBeside state booked := by
    have booking : SameBeside state (state.bookSupply ctx block vstate (.entry hash)
      pindex.nHeight effects).1 := sameBeside_bookSupply _
    rwa [books] at booking
  have wrote : pindex.nHeight ≠ ctx.params.nBlockRecalculateAccumulators + 1 →
      ∃ written, booked = state.setIndex hash written ∧
        written.mapZerocoinSupply = (updateZGICSupply ctx (ctx.validationAt state).useModulusV1
          block pindex (state.pprev pindex) vstate).1.mapZerocoinSupply := by
    intro quiet
    have booking : ∃ written, (state.bookSupply ctx block vstate (.entry hash) pindex.nHeight
      effects).1 = state.setIndex hash written ∧ _ := bookSupply_of_ne quiet index
    rwa [books] at booking
  refine ⟨⟨same.indexes.trans (.of_eq rfl), same.chainActive, same.coinsTip, same.txIndex⟩,
    same.zerocoinDB, ?_, ?_⟩
  · intro quiet other different
    obtain ⟨written, rfl, -⟩ := wrote quiet
    exact setIndex_of_ne _ _ different
  · intro quiet
    obtain ⟨written, rfl, supply⟩ := wrote quiet
    exact Or.inr ⟨written, setIndex_self .., supply⟩

/-- **A block that is not accepted.** -/
theorem refusesTip_of_connectBlock {view : CoinsView} {fJustCheck : Bool}
    {failure : AcceptFailure} (index : state.mapBlockIndex hash = some pindex)
    (refused : state.connectBlock ctx block vstate (.entry hash) view fJustCheck fAlreadyChecked =
      (after, .error failure)) : RefusesTip ctx vstate block hash pindex state after := by
  unfold connectBlock at refused
  split at refused
  · cases refused
    exact .refl ctx vstate block index
  · cases refused
    exact .refl ctx vstate block index
  · rename_i budgetState found checked there
    cases index.symm.trans there
    split at refused
    · cases refused
      exact .refl ctx vstate block index
    · split at refused
      · cases refused
      · unfold connectAfterGenesis at refused
        split at refused
        · cases refused
          exact .refl ctx vstate block index
        · rename_i effects transactions
          split at refused
          · rename_i books
            cases refused
            exact .bookSupply index books _
          · rename_i booked bookedIndex books
            split at refused
            · rename_i last _ checks
              cases refused
              rw [checkBooked_eq checks]
              exact .bookSupply index books _
            · split at refused
              · cases refused
              · cases refused

end

/-- **`ConnectTip`** of a block that is not the first one. -/
theorem connectTip_cases
    (later : ∀ block, ctx.readBlockFromDisk hash = some block →
      block.hash ≠ ctx.hashGenesisBlock)
    {result : Except AcceptFailure Unit}
    (called : state.connectTip ctx vstate hash fAlreadyChecked = (after, result)) :
    (after = state ∧ ∃ failure, result = .error failure) ∨
    (∃ pindex block, state.mapBlockIndex hash = some pindex ∧
      ctx.readBlockFromDisk hash = some block ∧ pindex.hashPrev = state.chainActive.getLast? ∧
      RefusesTip ctx vstate block hash pindex state after ∧ ∃ failure, result = .error failure) ∨
    (∃ pindex block effects booked bookedIndex, ConnectsTip ctx state vstate hash after pindex
      block effects booked bookedIndex) ∧ result = .ok () := by
  unfold connectTip at called
  split at called
  · cases called
    exact Or.inl ⟨rfl, _, rfl⟩
  · cases called
    exact Or.inl ⟨rfl, _, rfl⟩
  · rename_i pindex block index disk
    split at called
    · cases called
      exact Or.inl ⟨rfl, _, rfl⟩
    · rename_i parent
      split at called
      · rename_i refused
        cases called
        exact Or.inr (Or.inl ⟨pindex, block, index, disk, not_not.mp parent,
          refusesTip_of_connectBlock index refused, _, rfl⟩)
      · rename_i last view accepted
        cases called
        refine Or.inr (Or.inr ?_)
        obtain ⟨found, effects, booked, bookedIndex, checked, accumulators, accepts,
            coins, wrote⟩ :=
          connectBlock_eq_ok (congrArg Prod.snd accepted) (later block disk)
        obtain ⟨hashBlock, written⟩ := wrote rfl
        rw [accepted] at written
        simp only at written
        have same : found = pindex := Option.some.inj (accepts.index.symm.trans index)
        subst same
        obtain ⟨_, passes⟩ := accepts.passes
        have unchanged := checkBooked_eq passes
        have booking : SameBeside state booked := by
          have booking : SameBeside state (state.bookSupply ctx block vstate (.entry hash)
            found.nHeight effects).1 := sameBeside_bookSupply _
          rwa [accepts.books] at booking
        refine ⟨⟨found, block, effects, booked, bookedIndex, index, disk, not_not.mp parent,
          accepts.bestBlock, accepts.transactions, accepts.books, ?_, ?_, ?_, ?_, ?_, ?_⟩, rfl⟩
        · rw [written]
          exact setIndex_self ..
        · intro other different
          rw [written]
          refine (setIndex_of_ne _ _ different).trans ?_
          rw [unchanged]
        · rw [← booking.chainActive]
          rw [written, unchanged]
          rfl
        · cases view
          simp only at coins hashBlock
          rw [coins, hashBlock]
          rfl
        · rw [written, unchanged, ← booking.zerocoinDB]
          rfl
        · rw [written, unchanged, ← booking.txIndex]
          rfl

/-- **A call of `DisconnectTip` that goes through.** -/
structure DisconnectsTip (ctx : ChainContext) (state : ChainState) (vstate : CValidationState)
    (after : ChainState) (hash hashPrev : Uint256) (pindex : ChainIndex) (block : CBlock)
    (vtxundo : List CTxUndo) (current : DisconnectState) : Prop where
  tip : state.chainActive.getLast? = some hash
  disk : ctx.readBlockFromDisk hash = some block
  index : state.mapBlockIndex hash = some pindex
  bestBlock : hash = state.coinsTip.hashBlock
  parent : pindex.hashPrev = some hashPrev
  undoable : pindex.vtxundo = some vtxundo
  length : vtxundo.length + 1 = block.vtx.length
  rounds : disconnectRounds ctx state vstate pindex.nHeight
    (block.vtx.zip (none :: vtxundo.map some))
    { view := state.coinsTip.coins, zerocoinDB := state.zerocoinDB } = (current, .ok ())
  clean : current.fClean = true
  mapBlockIndex : after.mapBlockIndex = state.mapBlockIndex
  chainActive : after.chainActive = state.chainActive.dropLast
  coinsTip : after.coinsTip = ⟨current.view, hashPrev⟩
  zerocoinDB : after.zerocoinDB = current.zerocoinDB
  txIndex : after.txIndex = state.txIndex

/-- Erasing a checkpoint changes the accumulators only. -/
theorem eraseCheckpointOf_eq (ctx : ChainContext) (state : ChainState)
    (pindex pprev : ChainIndex) : state.eraseCheckpointOf ctx pindex pprev = { state with
      accumulators := (state.eraseCheckpointOf ctx pindex pprev).accumulators } := by
  unfold eraseCheckpointOf
  split
  · rfl
  · rfl

/-- The parts of the state that `DisconnectBlock` writes. -/
theorem disconnectBlock_fst (block : CBlock) (view : CoinsView) :
    ∃ db store, (state.disconnectBlock ctx vstate block hash view).1 =
      { state with zerocoinDB := db, accumulators := store } := by
  unfold disconnectBlock
  split
  · exact ⟨_, _, rfl⟩
  · split
    · exact ⟨_, _, rfl⟩
    · split
      · exact ⟨_, _, rfl⟩
      · exact ⟨_, _, rfl⟩
      · split
        · exact ⟨_, _, rfl⟩
        · dsimp only
          split
          · exact ⟨_, _, rfl⟩
          · exact ⟨_, _, rfl⟩
          · exact ⟨_, _, eraseCheckpointOf_eq ..⟩

/-- What `DisconnectBlock` did where it goes through. -/
theorem disconnectBlock_eq_ok {block : CBlock} {view last : CoinsView} {fClean : Bool}
    (went : state.disconnectBlock ctx vstate block hash view = (after, .ok (last, fClean))) :
    ∃ pindex hashPrev vtxundo current, state.mapBlockIndex hash = some pindex ∧
      hash = view.hashBlock ∧ pindex.hashPrev = some hashPrev ∧ pindex.vtxundo = some vtxundo ∧
      vtxundo.length + 1 = block.vtx.length ∧
      disconnectRounds ctx state vstate pindex.nHeight (block.vtx.zip (none :: vtxundo.map some))
        { view := view.coins, zerocoinDB := state.zerocoinDB } = (current, .ok ()) ∧
      last = ⟨current.view, hashPrev⟩ ∧ fClean = current.fClean ∧
      after.zerocoinDB = current.zerocoinDB := by
  unfold disconnectBlock at went
  split at went
  · cases went
  · rename_i pindex index
    split at went
    · cases went
    · rename_i bestBlock
      split at went
      · cases went
      · cases went
      · rename_i vtxundo hashPrev undoable parent
        split at went
        · cases went
        · rename_i length
          dsimp only at went
          split at went
          · cases went
          · cases went
          · rename_i pprev undone found
            cases went
            refine ⟨pindex, hashPrev, vtxundo, _, index, not_not.mp bestBlock, parent, undoable,
              not_not.mp length, Prod.ext rfl undone, rfl, rfl, ?_⟩
            rw [eraseCheckpointOf_eq]

/-- **`DisconnectTip`.** -/
theorem disconnectTip_cases {result : Except AcceptFailure Unit}
    (called : state.disconnectTip ctx vstate = (after, result)) :
    ((∃ db store, after = { state with zerocoinDB := db, accumulators := store }) ∧
      ∃ failure, result = .error failure) ∨
    (∃ hash hashPrev pindex block vtxundo current, DisconnectsTip ctx state vstate after hash
      hashPrev pindex block vtxundo current) ∧ result = .ok () := by
  unfold disconnectTip at called
  split at called
  · cases called
    exact Or.inl ⟨⟨_, _, rfl⟩, _, rfl⟩
  · rename_i hash tip
    split at called
    · cases called
      exact Or.inl ⟨⟨_, _, rfl⟩, _, rfl⟩
    · rename_i block disk
      obtain ⟨db, store, wrote⟩ : ∃ db store, (state.disconnectBlock ctx vstate block hash
          state.coinsTip).1 = { state with zerocoinDB := db, accumulators := store } :=
        disconnectBlock_fst block state.coinsTip
      split at called
      · rename_i went
        rw [went] at wrote
        cases called
        exact Or.inl ⟨⟨db, store, wrote⟩, _, rfl⟩
      · rename_i went
        rw [went] at wrote
        cases called
        exact Or.inl ⟨⟨db, store, wrote⟩, _, rfl⟩
      · rename_i last view went
        rw [went] at wrote
        simp only at wrote
        cases called
        obtain ⟨pindex, hashPrev, vtxundo, current, index, bestBlock, parent, undoable, length,
          rounds, rfl, clean, zerocoinDB⟩ := disconnectBlock_eq_ok went
        refine Or.inr ⟨⟨hash, hashPrev, pindex, block, vtxundo, current, tip, disk, index,
          bestBlock, parent, undoable, length, rounds, clean.symm, ?_, ?_, rfl, zerocoinDB, ?_⟩,
          rfl⟩
        · rw [wrote]
        · rw [wrote]
        · rw [wrote]

end

/-! ## The active chain -/

/-- The place of a block in the tree: its parent and its height. -/
def place (state : ChainState) (hash : Uint256) : Option (Option Uint256 × Int) :=
  (state.mapBlockIndex hash).map fun pindex => (pindex.hashPrev, pindex.nHeight)

/-- The place of an entry is its parent and its height. -/
theorem place_eq {state : ChainState} {hash : Uint256} {pindex : ChainIndex}
    (index : state.mapBlockIndex hash = some pindex) :
    state.place hash = some (pindex.hashPrev, pindex.nHeight) := by
  rw [place, index]
  rfl

/-- Entries of the same blocks have the same places. -/
theorem SameIndexes.place {before after : ChainState} (same : SameIndexes before after) :
    after.place = before.place := by
  funext hash
  cases index : before.mapBlockIndex hash with
  | none => simp only [ChainState.place, index, same.missing hash index]
  | some pindex =>
      obtain ⟨pindex', there, sameBlock⟩ := same.found hash pindex index
      rw [place_eq index, place_eq there, sameBlock.hashPrev, sameBlock.nHeight]

/-- **The active chain is a path** through the tree from the first block, and the coins
are those of its end. -/
structure Linked (genesis : Uint256) (state : ChainState) : Prop where
  zero : state.place 0 = none
  root : ∀ hash prev height, state.place hash = some (prev, height) →
    (prev = none ↔ hash = genesis)
  tree : ∀ hash prev height, state.place hash = some (some prev, height) →
    ∃ above, state.place prev = some (above, height - 1)
  first : state.chainActive.head? = some genesis
  path : ∀ (i : Nat) hash, state.chainActive[i]? = some hash →
    ∃ prev, state.place hash = some (prev, (i : Int)) ∧
      ∀ j, i = j + 1 → prev = state.chainActive[j]?
  bestBlock : state.chainActive.getLast? = some state.coinsTip.hashBlock

namespace Linked

variable {genesis : Uint256} {state after : ChainState}

/-- The active chain of a linked state has a block. -/
theorem nonempty (linked : Linked genesis state) : state.chainActive ≠ [] := by
  intro empty
  have first := linked.first
  rw [empty] at first
  cases first

/-- Every block has one height. -/
theorem nodup (linked : Linked genesis state) : state.chainActive.Nodup := by
  rw [List.nodup_iff_getElem?_ne_getElem?]
  intro i j less inside same
  obtain ⟨hash, here⟩ : ∃ hash, state.chainActive[j]? = some hash :=
    ⟨_, List.getElem?_eq_getElem inside⟩
  obtain ⟨_, place, -⟩ := linked.path j hash here
  obtain ⟨_, place', -⟩ := linked.path i hash (same.trans here)
  rw [place] at place'
  simp only [Option.some.injEq, Prod.mk.injEq] at place'
  omega

/-- The place of the tip. -/
theorem tip (linked : Linked genesis state) : ∃ prev,
    state.place state.coinsTip.hashBlock = some (prev, (state.chainActive.length : Int) - 1) := by
  have last := linked.bestBlock
  rw [List.getLast?_eq_getElem?] at last
  obtain ⟨prev, place, -⟩ := linked.path _ _ last
  have positive := List.length_pos_of_ne_nil linked.nonempty
  refine ⟨prev, ?_⟩
  rw [place, Nat.cast_sub positive]
  rfl

/-- A block on top of the tip. -/
theorem nHeight_eq_length (linked : Linked genesis state) {hash : Uint256} {height : Int}
    (index : state.place hash = some (state.chainActive.getLast?, height)) :
    height = state.chainActive.length := by
  rw [linked.bestBlock] at index
  obtain ⟨_, above⟩ := linked.tree hash _ height index
  obtain ⟨_, tip⟩ := linked.tip
  rw [tip] at above
  simp only [Option.some.injEq, Prod.mk.injEq] at above
  omega

/-- A block on top of the tip is not in the chain. -/
theorem not_mem_of_parent (linked : Linked genesis state) {hash : Uint256} {height : Int}
    (index : state.place hash = some (state.chainActive.getLast?, height)) :
    hash ∉ state.chainActive := by
  intro member
  obtain ⟨i, here⟩ := List.mem_iff_getElem?.mp member
  obtain ⟨_, place, -⟩ := linked.path i hash here
  have length := linked.nHeight_eq_length index
  have inside := (List.getElem?_eq_some_iff.mp here).1
  rw [index] at place
  simp only [Option.some.injEq, Prod.mk.injEq] at place
  omega

/-- The parent of a block on top of the tip. -/
theorem pprev_of_parent (linked : Linked genesis state) {pindex : ChainIndex}
    (parent : pindex.hashPrev = state.chainActive.getLast?) :
    ∃ tip, state.mapBlockIndex state.coinsTip.hashBlock = some tip ∧
      state.pprev pindex = some tip := by
  obtain ⟨prev, place⟩ := linked.tip
  obtain ⟨tip, found, -⟩ := Option.map_eq_some_iff.mp place
  refine ⟨tip, found, ?_⟩
  rw [pprev, parent, linked.bestBlock, Option.bind_some, found]

/-- The parents of the blocks of the chain are in it. -/
theorem mem_of_parent (linked : Linked genesis state) {hash hashPrev : Uint256}
    {pindex : ChainIndex} (member : hash ∈ state.chainActive)
    (index : state.mapBlockIndex hash = some pindex) (parent : pindex.hashPrev = some hashPrev) :
    hashPrev ∈ state.chainActive := by
  obtain ⟨i, here⟩ := List.mem_iff_getElem?.mp member
  obtain ⟨prev, place, parents⟩ := linked.path i hash here
  rw [place_eq index, Option.some.injEq, Prod.mk.injEq] at place
  obtain ⟨rfl, -⟩ := place
  cases i with
  | zero =>
      have first := linked.first
      rw [List.head?_eq_getElem?, here, Option.some.injEq] at first
      have orphan := (linked.root hash _ _ (place_eq index)).mpr first
      rw [orphan] at parent
      cases parent
  | succ j =>
      rw [parents j rfl] at parent
      exact List.mem_of_getElem? parent

/-- A state with the same chain and places is linked too. -/
theorem sameChain (linked : Linked genesis state) (same : SameChain state after) :
    Linked genesis after := by
  obtain ⟨zero, root, tree, first, path, bestBlock⟩ := linked
  rw [← same.indexes.place] at zero root tree path
  rw [← same.chainActive] at first path bestBlock
  rw [← same.coinsTip] at bestBlock
  exact ⟨zero, root, tree, first, path, bestBlock⟩

/-- A new tip. -/
theorem extend (linked : Linked genesis state) {hash : Uint256} {height : Int}
    (index : state.place hash = some (state.chainActive.getLast?, height))
    (place : after.place = state.place) (chain : after.chainActive = state.chainActive ++ [hash])
    (bestBlock : after.coinsTip.hashBlock = hash) : Linked genesis after := by
  have length := linked.nHeight_eq_length index
  refine ⟨place ▸ linked.zero, place ▸ linked.root, place ▸ linked.tree, ?_, ?_, ?_⟩
  · rw [chain, List.head?_append, linked.first]
    rfl
  · intro i other here
    rw [place]
    rw [chain] at here ⊢
    rcases Nat.lt_or_ge i state.chainActive.length with inside | outside
    · rw [List.getElem?_append_left inside] at here
      obtain ⟨prev, found, parents⟩ := linked.path i other here
      refine ⟨prev, found, ?_⟩
      intro j next
      rw [List.getElem?_append_left (by omega)]
      exact parents j next
    · rw [List.getElem?_append_right outside] at here
      obtain ⟨bound, same⟩ := List.getElem?_eq_some_iff.mp here
      simp only [List.length_singleton, Nat.lt_one_iff] at bound
      have last : i = state.chainActive.length := by omega
      subst last
      simp only [Nat.sub_self, List.getElem_cons_zero] at same
      subst same
      refine ⟨_, length ▸ index, ?_⟩
      intro j next
      rw [List.getLast?_eq_getElem?, next, Nat.add_sub_cancel,
        List.getElem?_append_left (by omega)]
  · rw [chain, List.getLast?_concat, bestBlock]

/-- The tip taken away. -/
theorem retract (linked : Linked genesis state) {hash hashPrev : Uint256} {height : Int}
    (tip : state.chainActive.getLast? = some hash)
    (index : state.place hash = some (some hashPrev, height))
    (place : after.place = state.place) (chain : after.chainActive = state.chainActive.dropLast)
    (bestBlock : after.coinsTip.hashBlock = hashPrev) : Linked genesis after := by
  have last := tip
  rw [List.getLast?_eq_getElem?] at last
  obtain ⟨prev, found, parents⟩ := linked.path _ _ last
  rw [index] at found
  simp only [Option.some.injEq, Prod.mk.injEq] at found
  obtain ⟨rfl, -⟩ := found
  -- the first block has no parent, so there is a block below the tip
  have long : 2 ≤ state.chainActive.length := by
    by_contra short
    have one : state.chainActive.length - 1 = 0 := by omega
    have first := linked.first
    rw [List.head?_eq_getElem?, ← one, last] at first
    cases first
    have none := (linked.root _ _ _ index).mpr rfl
    cases none
  have parent := parents (state.chainActive.length - 2) (by omega)
  refine ⟨place ▸ linked.zero, place ▸ linked.root, place ▸ linked.tree, ?_, ?_, ?_⟩
  · rw [chain, List.head?_eq_getElem?, List.getElem?_dropLast, if_pos (by omega),
      ← List.head?_eq_getElem?, linked.first]
  · intro i other here
    rw [chain, List.getElem?_dropLast] at here
    split at here
    · rename_i inside
      obtain ⟨prev, found, parents⟩ := linked.path i other here
      refine ⟨prev, place ▸ found, ?_⟩
      intro j next
      rw [chain, List.getElem?_dropLast, if_pos (by omega)]
      exact parents j next
    · cases here
  · rw [chain, List.getLast?_eq_getElem?, List.length_dropLast, List.getElem?_dropLast,
      if_pos (by omega), bestBlock, parent]
    rfl

end Linked

namespace ConnectsTip

variable {ctx : ChainContext} {state after booked : ChainState} {vstate : CValidationState}
  {hash : Uint256} {pindex bookedIndex : ChainIndex} {block : CBlock} {effects : BlockEffects}

/-- What is booked when a block is connected. -/
theorem booked_indexes
    (connects : ConnectsTip ctx state vstate hash after pindex block effects booked bookedIndex) :
    SameBeside state booked ∧ booked.mapBlockIndex hash = some bookedIndex ∧
      pindex.SameBlock bookedIndex := by
  have booking : SameBeside state (state.bookSupply ctx block vstate (.entry hash)
    pindex.nHeight effects).1 := sameBeside_bookSupply _
  rw [connects.books] at booking
  obtain ⟨middle, found, recalculates, index, rfl, same⟩ := sameBlock_of_bookSupply connects.books
  refine ⟨booking, setIndex_self .., ?_⟩
  obtain ⟨found', there, sameFound⟩ :=
    (sameBeside_recalculate recalculates).indexes.found hash pindex connects.index
  have equal : some found = some found' := index.symm.trans there
  cases equal
  exact sameFound.trans same

/-- A block that connects stands on the tip. -/
theorem place_tip
    (connects : ConnectsTip ctx state vstate hash after pindex block effects booked bookedIndex) :
    state.place hash = some (state.chainActive.getLast?, pindex.nHeight) := by
  rw [place_eq connects.index, connects.parent]

/-- Connecting a tip keeps the places. -/
theorem place
    (connects : ConnectsTip ctx state vstate hash after pindex block effects booked bookedIndex) :
    after.place = state.place := by
  obtain ⟨booking, entry, sameBlock⟩ := connects.booked_indexes
  rw [← booking.indexes.place]
  funext other
  by_cases same : other = hash
  · subst same
    rw [place_eq connects.entry, place_eq entry]
  · rw [ChainState.place, ChainState.place, connects.others other same]

/-- Connecting a tip keeps the chain linked. -/
theorem linked {genesis : Uint256} (before : Linked genesis state)
    (connects : ConnectsTip ctx state vstate hash after pindex block effects booked bookedIndex) :
    Linked genesis after :=
  before.extend connects.place_tip connects.place connects.chainActive
    (congrArg CoinsView.hashBlock connects.coinsTip)

end ConnectsTip

/-- Disconnecting the tip keeps the chain linked. -/
theorem DisconnectsTip.linked {ctx : ChainContext} {state after : ChainState}
    {vstate : CValidationState} {hash hashPrev : Uint256} {pindex : ChainIndex} {block : CBlock}
    {vtxundo : List CTxUndo} {current : DisconnectState} {genesis : Uint256}
    (before : Linked genesis state)
    (disconnects : DisconnectsTip ctx state vstate after hash hashPrev pindex block vtxundo
      current) : Linked genesis after := by
  have index := place_eq disconnects.index
  rw [disconnects.parent] at index
  refine before.retract disconnects.tip index ?_ disconnects.chainActive
    (congrArg CoinsView.hashBlock disconnects.coinsTip)
  funext other
  rw [place, place, disconnects.mapBlockIndex]

end ChainState

/-! ## Runs -/

/-- A call on the tip of the chain, with what it reads. -/
inductive TipCall where
  | connectTip (ctx : ChainContext) (vstate : CValidationState) (hash : Uint256)
      (fAlreadyChecked : Bool)
  | disconnectTip (ctx : ChainContext) (vstate : CValidationState)

def TipCall.ctx : TipCall → ChainContext
  | .connectTip ctx _ _ _ => ctx
  | .disconnectTip ctx _ => ctx

/-- Two contexts of one node, at different times. -/
structure ChainContext.SameNode (node ctx : ChainContext) : Prop where
  params : ctx.params = node.params
  hashGenesisBlock : ctx.hashGenesisBlock = node.hashGenesisBlock
  readBlockFromDisk : ctx.readBlockFromDisk = node.readBlockFromDisk
  hashBignum : ctx.hashBignum = node.hashBignum

/-- `ReadBlockFromDisk` compares the hash of the block with that of the index. -/
def ChainContext.HonestDisk (node : ChainContext) : Prop :=
  ∀ hash block, node.readBlockFromDisk hash = some block → block.hash = hash

namespace ChainState

/-- The state after a call. -/
def call (state : ChainState) : TipCall → ChainState
  | .connectTip ctx vstate hash fAlreadyChecked =>
      (state.connectTip ctx vstate hash fAlreadyChecked).1
  | .disconnectTip ctx vstate => (state.disconnectTip ctx vstate).1

/-- **What a call can do.** -/
inductive CallEffect (state : ChainState) : TipCall → ChainState → Prop where
  | unchanged {action} : CallEffect state action state
  | refused {ctx vstate hash fAlreadyChecked after pindex block}
      (index : state.mapBlockIndex hash = some pindex)
      (disk : ctx.readBlockFromDisk hash = some block)
      (parent : pindex.hashPrev = state.chainActive.getLast?)
      (refuses : RefusesTip ctx vstate block hash pindex state after) :
      CallEffect state (.connectTip ctx vstate hash fAlreadyChecked) after
  | connected {ctx vstate hash fAlreadyChecked after pindex block effects booked bookedIndex}
      (connects : ConnectsTip ctx state vstate hash after pindex block effects booked
        bookedIndex) :
      CallEffect state (.connectTip ctx vstate hash fAlreadyChecked) after
  | broken {ctx vstate after failure} (db : ZerocoinDB) (store : AccumulatorStore)
      (fails : (state.disconnectTip ctx vstate).2 = .error failure)
      (left : after = { state with zerocoinDB := db, accumulators := store }) :
      CallEffect state (.disconnectTip ctx vstate) after
  | disconnected {ctx vstate after hash hashPrev pindex block vtxundo current}
      (disconnects : DisconnectsTip ctx state vstate after hash hashPrev pindex block vtxundo
        current) :
      CallEffect state (.disconnectTip ctx vstate) after

section

variable {node : ChainContext} {state : ChainState} {action : TipCall}

/-- A call for the first block finds that the chain is not empty. -/
theorem connectTip_genesis {ctx : ChainContext} {vstate : CValidationState} {hash : Uint256}
    {fAlreadyChecked : Bool} (linked : Linked hash state) :
    (state.connectTip ctx vstate hash fAlreadyChecked).1 = state := by
  unfold connectTip
  split
  · rfl
  · rfl
  · rename_i pindex block index disk
    have orphan := (linked.root hash _ _ (place_eq index)).mpr rfl
    rw [orphan, linked.bestBlock, if_pos nofun]

/-- Every call connects a block, disconnects one, or changes nothing of the chain. -/
theorem callEffect (linked : Linked node.hashGenesisBlock state) (honest : node.HonestDisk)
    (same : node.SameNode action.ctx) : CallEffect state action (state.call action) := by
  cases action with
  | connectTip ctx vstate hash fAlreadyChecked =>
      have same : node.SameNode ctx := same
      by_cases first : hash = node.hashGenesisBlock
      · subst first
        rw [call, connectTip_genesis linked]
        exact .unchanged
      · have later : ∀ block, ctx.readBlockFromDisk hash = some block →
            block.hash ≠ ctx.hashGenesisBlock := by
          intro block disk
          rw [same.readBlockFromDisk] at disk
          rw [honest hash block disk, same.hashGenesisBlock]
          exact first
        rcases called : state.connectTip ctx vstate hash fAlreadyChecked with ⟨after, result⟩
        rw [call, called]
        rcases connectTip_cases later called with ⟨rfl, -⟩ |
          ⟨_, _, index, disk, parent, refuses, -⟩ | ⟨⟨_, _, _, _, _, connects⟩, -⟩
        · exact .unchanged
        · exact .refused index disk parent refuses
        · exact .connected connects
  | disconnectTip ctx vstate =>
      rcases called : state.disconnectTip ctx vstate with ⟨after, result⟩
      rw [call, called]
      rcases disconnectTip_cases called with ⟨⟨db, store, left⟩, failure, rfl⟩ |
        ⟨⟨_, _, _, _, _, _, disconnects⟩, -⟩
      · exact .broken db store (congrArg Prod.snd called) left
      · exact .disconnected disconnects

/-- **The chain stays a path.** -/
theorem Linked.call (linked : Linked node.hashGenesisBlock state) (honest : node.HonestDisk)
    (same : node.SameNode action.ctx) : Linked node.hashGenesisBlock (state.call action) := by
  generalize effect : state.call action = after
  have cases := effect ▸ callEffect linked honest same
  cases cases with
  | unchanged => exact linked
  | refused index disk parent refuses => exact linked.sameChain refuses.toSameChain
  | connected connects => exact connects.linked linked
  | broken db store fails left =>
      rw [left]
      exact linked.sameChain ⟨.of_eq rfl, rfl, rfl, rfl⟩
  | disconnected disconnects => exact disconnects.linked linked

end

end ChainState

/-! ## A node of the regression test network -/

/-- The coinbase of a block of the regression test network. The first one pays for
everything that follows. -/
def regtestCoinBase (nHeight : Nat) : CTransaction where
  hash := BitVec.ofNat 256 (1000 + nHeight)
  vin := [{ prevout := COutPoint.null, scriptSig := [1, 2] }]
  vout := if nHeight = 1 then List.replicate 60 ⟨1000 * COIN, [0x51], -10⟩ else [⟨0, [], -10⟩]

/-- The height of a block by its hash. -/
def regtestHeight (hash : Uint256) : Option Nat :=
  if 100 < hash.toNat ∧ hash.toNat ≤ 400 then some (hash.toNat - 100) else none

/-- Such a node, with one block at each of the first heights. -/
def ChainContext.regtest (blocks : Nat → CBlock) : ChainContext :=
  { ChainContext.mainChain [] with
    validation := { ValidationContext.mainContext 0 with
      node := { NodeContext.mainNode 0 with params := .regtest } }
    supply := .regtest
    readBlockFromDisk := fun hash => (regtestHeight hash).map blocks }

/-- Its state before any of them is connected. -/
def ChainState.regtest (blocks : Nat → CBlock) : ChainState :=
  { ChainState.genesis [] with
    mapBlockIndex := fun hash =>
      if hash = 100 then some .genesis
      else (regtestHeight hash).map fun nHeight => .ofBlock (blocks nHeight) nHeight }

/-- The hashes count the heights. -/
def RegtestBlocks (blocks : Nat → CBlock) : Prop :=
  ∀ nHeight, (blocks nHeight).hash = BitVec.ofNat 256 (100 + nHeight) ∧
    (blocks nHeight).hashPrevBlock = BitVec.ofNat 256 (99 + nHeight)

section

variable {blocks : Nat → CBlock}

/-- The hashes of the example chain are consecutive numbers. -/
theorem regtestHeight_eq_some {hash : Uint256} {nHeight : Nat}
    (height : regtestHeight hash = some nHeight) :
    hash.toNat = 100 + nHeight ∧ 1 ≤ nHeight ∧ nHeight ≤ 300 := by
  unfold regtestHeight at height
  split at height
  · cases height
    omega
  · cases height

/-- Small numbers are hashes of their own. -/
theorem toNat_regtest {value : Nat} (small : value ≤ 10000) :
    (BitVec.ofNat 256 value).toNat = value := by
  rw [BitVec.toNat_ofNat]
  apply Nat.mod_eq_of_lt
  omega

/-- The disk of the example chain holds its blocks. -/
theorem honestDisk_regtest (named : RegtestBlocks blocks) :
    (ChainContext.regtest blocks).HonestDisk := by
  intro hash block disk
  obtain ⟨nHeight, height, rfl⟩ := Option.map_eq_some_iff.mp disk
  obtain ⟨value, low, high⟩ := regtestHeight_eq_some height
  apply BitVec.eq_of_toNat_eq
  rw [value, (named nHeight).1]
  exact toNat_regtest (by omega)

/-- Each block of the example chain stands on the one before it. -/
theorem place_regtest (named : RegtestBlocks blocks) (hash : Uint256) :
    (ChainState.regtest blocks).place hash =
      if hash = 100 then some (none, 0)
      else (regtestHeight hash).map fun nHeight =>
        (some (BitVec.ofNat 256 (99 + nHeight)), (nHeight : Int)) := by
  unfold ChainState.place ChainState.regtest
  dsimp only
  split
  · rfl
  · rw [Option.map_map]
    congr 1
    funext nHeight
    simp only [Function.comp_apply, ChainIndex.ofBlock, (named nHeight).2]

/-- The example chain is linked. -/
theorem linked_regtest (named : RegtestBlocks blocks) :
    ChainState.Linked 100 (ChainState.regtest blocks) := by
  have later : ∀ hash prev height, hash ≠ (100 : Uint256) →
      (ChainState.regtest blocks).place hash = some (prev, height) →
      ∃ nHeight : Nat, hash.toNat = 100 + nHeight ∧ 1 ≤ nHeight ∧ nHeight ≤ 300 ∧
        prev = some (BitVec.ofNat 256 (99 + nHeight)) ∧ height = nHeight := by
    intro hash prev height different place
    rw [place_regtest named, if_neg different] at place
    obtain ⟨nHeight, found, equal⟩ := Option.map_eq_some_iff.mp place
    cases equal
    obtain ⟨value, low, high⟩ := regtestHeight_eq_some found
    exact ⟨nHeight, value, low, high, rfl, rfl⟩
  refine ⟨by rw [place_regtest named]; rfl, ?_, ?_, rfl, ?_, rfl⟩
  · intro hash prev height place
    by_cases first : hash = 100
    · rw [place_regtest named, if_pos first] at place
      cases place
      exact iff_of_true rfl first
    · obtain ⟨nHeight, -, -, -, rfl, -⟩ := later hash prev height first place
      exact iff_of_false nofun first
  · intro hash prev height place
    have different : hash ≠ 100 := by
      rintro rfl
      rw [place_regtest named, if_pos rfl] at place
      cases place
    obtain ⟨nHeight, value, low, high, parent, rfl⟩ := later hash (some prev) height different place
    cases parent
    have above := toNat_regtest (show 99 + nHeight ≤ 10000 by omega)
    by_cases first : nHeight = 1
    · subst first
      exact ⟨none, by rw [place_regtest named]; rfl⟩
    · have notFirst : BitVec.ofNat 256 (99 + nHeight) ≠ 100 := by
        intro equal
        rw [equal] at above
        have value : (100 : Uint256).toNat = 100 := rfl
        omega
      refine ⟨some (BitVec.ofNat 256 (99 + (nHeight - 1))), ?_⟩
      rw [place_regtest named, if_neg notFirst, regtestHeight, above, if_pos (by omega),
        show 99 + nHeight - 100 = nHeight - 1 by omega, Option.map_some, Nat.cast_sub low]
      rfl
  · intro i hash here
    have inside : (ChainState.regtest blocks).chainActive = [100] := rfl
    rw [inside] at here ⊢
    have zero : i = 0 := by
      obtain ⟨bound, -⟩ := List.getElem?_eq_some_iff.mp here
      simpa using bound
    subst zero
    cases here
    exact ⟨none, by rw [place_regtest named]; rfl, nofun⟩

end

end GiantCore
