import Mathlib.Algebra.BigOperators.Group.List.Basic
import GiantCore.Validation.ZerocoinRecords

/-! # The supply of zerocoins

Every block index records how many coins of each denomination there are.
`UpdateZGICSupply` starts from the numbers of the previous block, adds the mints of
the block and subtracts its spends. The numbers of a previous block of version 3 or
less do not count: such blocks belong to the time before zerocoins, and their indexes
are stored without them. The index of the block on top of one then keeps the numbers
it has, and these are zero as long as nothing was ever booked in it.

The numbers are the exact ones in every run, whatever is disconnected and connected
again and whatever fails, as long as zerocoins come only after the old versions. The
heights from the recalculation of accumulators on are left out: there the code
corrects its own numbers once.
-/

namespace GiantCore

open ChainState

namespace CBlock

variable (block : CBlock)

/-- The number of mints of a denomination. -/
def mintCount (denom : CoinDenomination) : Nat :=
  ((block.vtx.flatMap CTransaction.publicCoins).map PublicCoin.denomination).count denom

/-- The number of spends of a denomination. -/
def spendCount (denom : CoinDenomination) : Nat :=
  (block.zerocoinSpends.map fun txin => CoinDenomination.ofInt txin.nSequence.toNat).count denom

/-- The block neither mints nor spends zerocoins. -/
def NoZerocoins : Prop := ∀ tx ∈ block.vtx, tx.containsZerocoins = false

instance : Decidable block.NoZerocoins :=
  inferInstanceAs (Decidable (∀ tx ∈ block.vtx, tx.containsZerocoins = false))

end CBlock

namespace ChainContext

/-- The mints of a denomination less its spends, over the blocks of the chain up to a
height. -/
def zerocoinCount (node : ChainContext) (state : ChainState) (height : Nat)
    (denom : CoinDenomination) : Int :=
  ((state.chainActive.take (height + 1)).map fun hash =>
    (node.readBlockFromDisk hash).elim 0 fun block =>
      (block.mintCount denom : Int) - block.spendCount denom).sum

/-- The index of every block of the chain has the exact numbers, and none is negative. -/
def SupplyExact (node : ChainContext) (state : ChainState) : Prop :=
  ∀ i hash pindex, state.chainActive[i]? = some hash → state.mapBlockIndex hash = some pindex →
    ∀ denom, pindex.mapZerocoinSupply denom = node.zerocoinCount state i denom ∧
      0 ≤ pindex.mapZerocoinSupply denom

/-- **The calls that carry the supply on.** The height is below the one-time corrections,
and on top of an old version neither the block nor the chain below it has zerocoins. -/
def CarriesSupply (node : ChainContext) (state : ChainState) : TipCall → Prop
  | .connectTip ctx _ hash _ => node.SameNode ctx ∧
      ∀ pindex, state.mapBlockIndex hash = some pindex →
        pindex.nHeight < node.params.nBlockRecalculateAccumulators ∧
        ¬ (node.params.networkID = .main ∧
          pindex.nHeight = node.params.nFakeSerialBlockheightEnd + 1) ∧
        ∀ prev parent, pindex.hashPrev = some prev → state.mapBlockIndex prev = some parent →
          parent.nVersion ≤ 3 → ∀ other ∈ hash :: state.chainActive, ∀ block,
            node.readBlockFromDisk other = some block → block.NoZerocoins
  | .disconnectTip ctx _ => node.SameNode ctx

/-- What `CarriesSupply` asks besides the node, as a test. -/
def carriesSupply (node : ChainContext) (state : ChainState) : TipCall → Bool
  | .connectTip _ _ hash _ => (state.mapBlockIndex hash).all fun pindex =>
      decide (pindex.nHeight < node.params.nBlockRecalculateAccumulators ∧
        ¬ (node.params.networkID = .main ∧
          pindex.nHeight = node.params.nFakeSerialBlockheightEnd + 1)) &&
      pindex.hashPrev.all fun prev => (state.mapBlockIndex prev).all fun parent =>
        decide (3 < parent.nVersion) || (hash :: state.chainActive).all fun other =>
          (node.readBlockFromDisk other).all fun block => decide block.NoZerocoins
  | .disconnectTip _ _ => true

theorem carriesSupply_of_test {node : ChainContext} {state : ChainState} {action : TipCall}
    (same : node.SameNode action.ctx) (test : node.carriesSupply state action = true) :
    node.CarriesSupply state action := by
  cases action with
  | disconnectTip ctx vstate => exact same
  | connectTip ctx vstate hash fAlreadyChecked =>
      refine ⟨same, fun pindex index => ?_⟩
      rw [carriesSupply, index, Option.all_some, Bool.and_eq_true, decide_eq_true_eq] at test
      refine ⟨test.1.1, test.1.2, fun prev parent hashPrev found old other member block disk => ?_⟩
      have below := test.2
      rw [hashPrev, Option.all_some, found, Option.all_some, Bool.or_eq_true,
        decide_eq_true_eq] at below
      have clean := List.all_eq_true.mp (below.resolve_left (not_lt.mpr old)) other member
      rw [disk, Option.all_some, decide_eq_true_eq] at clean
      exact clean

end ChainContext

/-! ## The lists of a block -/

section

variable {ctx : ChainContext}

theorem txMintList_of_decoded {hash : Uint256} {i : Nat} {vout : List CTxOut}
    (decoded : ∀ out ∈ vout, out.isZerocoinMint = true → (txOutToPublicCoin out).isSome) :
    txMintList ctx false hash i vout =
      (((vout.filter CTxOut.isZerocoinMint).filterMap txOutToPublicCoin).map
        PublicCoin.denomination, true) := by
  induction vout generalizing i with
  | nil => rfl
  | cons out rest ih =>
      have later : ∀ i, _ := fun i =>
        @ih i fun other member => decoded other (List.mem_cons_of_mem _ member)
      cases mint : out.isZerocoinMint with
      | false => simp [txMintList, mint, later]
      | true =>
          obtain ⟨coin, read⟩ :=
            Option.isSome_iff_exists.mp (decoded out List.mem_cons_self mint)
          simp [txMintList, mint, read, later]

/-- Where all mints can be read, the list has the denominations of all of them. -/
theorem zerocoinMintList_of_decoded {vtx : List CTransaction}
    (decoded : ∀ tx ∈ vtx, ∀ out ∈ tx.vout, out.isZerocoinMint = true →
      (txOutToPublicCoin out).isSome) :
    zerocoinMintList ctx false vtx =
      (vtx.flatMap CTransaction.publicCoins).map PublicCoin.denomination := by
  induction vtx with
  | nil => rfl
  | cons tx rest ih =>
      have later := ih fun other member => decoded other (List.mem_cons_of_mem _ member)
      have here : txZerocoinMints ctx false tx =
          (tx.publicCoins.map PublicCoin.denomination, true) := by
        unfold txZerocoinMints
        cases mints : tx.hasZerocoinMintOutputs with
        | false =>
            have none : tx.vout.filter CTxOut.isZerocoinMint = [] := by
              rw [List.filter_eq_nil_iff]
              simpa [CTransaction.hasZerocoinMintOutputs] using mints
            simp [CTransaction.publicCoins, none]
        | true =>
            simp only [Bool.not_true, Bool.false_eq_true, if_false, Bool.false_and]
            exact txMintList_of_decoded (decoded tx List.mem_cons_self)
      simp only [zerocoinMintList, here, if_true, later, List.flatMap_cons, List.map_append]

theorem zerocoinSpendListFromBlock_false (accumulatorV1 : Bool) (block : CBlock) :
    zerocoinSpendListFromBlock ctx false accumulatorV1 block =
      some (block.zerocoinSpends.map fun txin => CoinDenomination.ofInt txin.nSequence.toNat) := by
  have loop : ∀ (txins : List CTxIn) (start : List CoinDenomination),
      txins.foldlM (fun vSpends txin => some (vSpends ++
        [CoinDenomination.ofInt txin.nSequence.toNat])) start =
        some (start ++ txins.map fun txin => CoinDenomination.ofInt txin.nSequence.toNat) := by
    intro txins
    induction txins with
    | nil => simp
    | cons txin rest ih =>
        intro start
        rw [List.foldlM_cons, Option.bind_eq_bind, Option.bind_some, ih]
        simp
  simpa [zerocoinSpendListFromBlock] using loop block.zerocoinSpends []

/-- A block without zerocoins has empty lists. -/
theorem lists_of_noZerocoins (ctx : ChainContext) {block : CBlock} (none : block.NoZerocoins) :
    block.vtx.flatMap CTransaction.publicCoins = [] ∧ block.zerocoinSpends = [] ∧
      blockToZerocoinMintList ctx false block = [] := by
  have mints : ∀ tx ∈ block.vtx, tx.vout.filter CTxOut.isZerocoinMint = [] := by
    intro tx member
    have clear := none tx member
    simp only [CTransaction.containsZerocoins, Bool.or_eq_false_iff,
      CTransaction.hasZerocoinMintOutputs, List.any_eq_false] at clear
    exact List.filter_eq_nil_iff.mpr clear.2
  have coins : block.vtx.flatMap CTransaction.publicCoins = [] := by
    rw [List.flatMap_eq_nil_iff]
    intro tx member
    rw [CTransaction.publicCoins, mints tx member]
    rfl
  refine ⟨coins, ?_, ?_⟩
  · rw [CBlock.zerocoinSpends, List.filter_eq_nil_iff]
    intro txin member
    obtain ⟨tx, inside, listed⟩ := List.mem_flatMap.mp member
    have clear := none tx inside
    simp only [CTransaction.containsZerocoins, Bool.or_eq_false_iff,
      CTransaction.hasZerocoinSpendInputs, List.any_eq_false] at clear
    exact clear.1 txin listed
  · rw [blockToZerocoinMintList, zerocoinMintList_of_decoded, coins]
    · rfl
    · intro tx member out inside mint
      have listed := List.mem_filter.mpr ⟨inside, mint⟩
      rw [mints tx member] at listed
      cases listed

/-- The mints of a block that is accepted can all be read. -/
theorem decoded_of_connectTxs {state : ChainState} {nHeight : Int}
    {done txs : List CTransaction} {start last : ConnectState} {undos : List CTxUndo}
    (connects : (ctx.coinsAt state).connectTxs nHeight done txs start = some (undos, last)) :
    ∀ tx ∈ txs, ∀ out ∈ tx.vout, out.isZerocoinMint = true →
      (txOutToPublicCoin out).isSome := by
  induction txs generalizing done start undos with
  | nil => simp
  | cons tx rest ih =>
      obtain ⟨undo, next, others, first, remaining, rfl⟩ :=
        (ctx.coinsAt state).connectTxs_cons connects
      intro other member
      rcases List.mem_cons.mp member with rfl | later
      · obtain ⟨-, keys, -, -, decoded, -⟩ := (ctx.coinsAt state).connectTx_cases first
        exact (publicCoins_coinsAt decoded).2
      · exact ih remaining other later

end

/-! ## What `UpdateZGICSupply` computes -/

/-- Subtracting spends that are all covered. -/
theorem subtractSpends_eq_ok {vstate : CValidationState} {spends : List CoinDenomination}
    {pindex after : ChainIndex} (went : pindex.subtractSpends vstate spends = (after, .ok ()))
    (denom : CoinDenomination) :
    after.mapZerocoinSupply denom = pindex.mapZerocoinSupply denom - spends.count denom ∧
      (0 ≤ pindex.mapZerocoinSupply denom → 0 ≤ after.mapZerocoinSupply denom) := by
  induction spends generalizing pindex with
  | nil =>
      cases went
      simp
  | cons spent rest ih =>
      unfold ChainIndex.subtractSpends at went
      dsimp only at went
      split at went
      · cases went
      · split at went
        · cases went
        · rename_i covered
          obtain ⟨value, nonneg⟩ := ih went
          by_cases same : spent = denom
          · subst same
            simp only [ChainIndex.subtractSpend, Function.update_self] at value nonneg covered
            rw [List.count_cons_self]
            refine ⟨?_, fun _ => nonneg (by omega)⟩
            rw [value]
            push_cast
            omega
          · simp only [ChainIndex.subtractSpend, Function.update_of_ne (Ne.symm same)]
              at value nonneg
            rw [List.count_cons_of_ne same]
            exact ⟨value, nonneg⟩

section

variable {ctx : ChainContext} {accumulatorV1 : Bool} {block : CBlock} {pindex prev : ChainIndex}
  {vstate : CValidationState}

/-- The numbers that `UpdateZGICSupply` starts from. -/
def startingSupply (pindex prev : ChainIndex) : CoinDenomination → Int :=
  if prev.nVersion > 3 then prev.mapZerocoinSupply else pindex.mapZerocoinSupply

theorem mapZerocoinSupply_initializeSupply (pindex prev : ChainIndex) :
    (initializeSupply pindex (some prev)).mapZerocoinSupply = startingSupply pindex prev := by
  unfold initializeSupply startingSupply
  dsimp only
  split
  · rfl
  · rfl

/-- No duplicated serials are added at other heights and on other networks. -/
theorem updateInflation_eq (plain : ¬ (ctx.params.networkID = .main ∧
    pindex.nHeight = ctx.params.nFakeSerialBlockheightEnd + 1)) :
    updateInflation ctx pindex = pindex := by
  unfold updateInflation
  rw [if_neg]
  rintro ⟨main, height, -⟩
  exact plain ⟨main, height⟩

/-- **`UpdateZGICSupply`** where it goes through, below the one-time corrections. -/
theorem updateZGICSupply_eq_ok {updated : ChainIndex}
    (below : pindex.nHeight < ctx.params.nBlockRecalculateAccumulators)
    (plain : ¬ (ctx.params.networkID = .main ∧
      pindex.nHeight = ctx.params.nFakeSerialBlockheightEnd + 1))
    (went : updateZGICSupply ctx accumulatorV1 block pindex (some prev) vstate =
      (updated, .ok ())) (denom : CoinDenomination) :
    updated.mapZerocoinSupply denom = startingSupply pindex prev denom +
        (blockToZerocoinMintList ctx false block).count denom - block.spendCount denom ∧
      (0 ≤ startingSupply pindex prev denom → 0 ≤ updated.mapZerocoinSupply denom) := by
  have unfiltered : decide (pindex.nHeight ≥ ctx.params.nBlockRecalculateAccumulators) = false :=
    decide_eq_false (Int.not_le.mpr below)
  simp only [updateZGICSupply, unfiltered, zerocoinSpendListFromBlock_false, Option.isNone_some,
    Bool.false_eq_true, if_false] at went
  split at went
  · cases went
  · rename_i spent spending
    have same := ChainIndex.SameBlock.subtractSpends spending
    have height : spent.nHeight = pindex.nHeight :=
      same.nHeight.trans (ChainIndex.SameBlock.initializeSupply pindex (some prev)).nHeight
    rw [updateInflation_eq (by rw [height]; exact plain)] at went
    cases went
    obtain ⟨value, nonneg⟩ := subtractSpends_eq_ok spending denom
    simp only [ChainIndex.addMints, mapZerocoinSupply_initializeSupply] at value nonneg
    refine ⟨value, fun start => nonneg ?_⟩
    omega

/-- A block without zerocoins keeps the numbers it starts from, even where the call
fails. -/
theorem updateZGICSupply_of_noZerocoins (none : block.NoZerocoins)
    (below : pindex.nHeight < ctx.params.nBlockRecalculateAccumulators)
    (plain : ¬ (ctx.params.networkID = .main ∧
      pindex.nHeight = ctx.params.nFakeSerialBlockheightEnd + 1)) :
    (updateZGICSupply ctx accumulatorV1 block pindex (some prev) vstate).1.mapZerocoinSupply =
      startingSupply pindex prev := by
  have unfiltered : decide (pindex.nHeight ≥ ctx.params.nBlockRecalculateAccumulators) = false :=
    decide_eq_false (Int.not_le.mpr below)
  obtain ⟨-, spends, mints⟩ := lists_of_noZerocoins ctx none
  simp only [updateZGICSupply, unfiltered, zerocoinSpendListFromBlock_false, spends, mints,
    List.map_nil, ChainIndex.subtractSpends, Option.isNone_some, Bool.false_eq_true, if_false]
  rw [updateInflation_eq]
  · simp [ChainIndex.addMints, mapZerocoinSupply_initializeSupply]
  · rw [(ChainIndex.SameBlock.initializeSupply pindex (some prev)).nHeight]
    exact plain

end

/-! ## Runs -/

/-- **The invariant of a run.** -/
structure SupplyCarried (node : ChainContext) (state : ChainState) : Prop where
  linked : Linked node.hashGenesisBlock state
  exact : node.SupplyExact state
  untouched : ∀ hash pindex prev parent, state.mapBlockIndex hash = some pindex →
    pindex.hashPrev = some prev → state.mapBlockIndex prev = some parent → parent.nVersion ≤ 3 →
    ∀ denom, pindex.mapZerocoinSupply denom = 0

namespace SupplyCarried

variable {node ctx : ChainContext} {state after : ChainState}

/-- The numbers of the chain do not depend on what comes later. -/
theorem zerocoinCount_of_take {i : Nat} (same : after.chainActive.take (i + 1) =
    state.chainActive.take (i + 1)) (denom : CoinDenomination) :
    node.zerocoinCount after i denom = node.zerocoinCount state i denom := by
  rw [ChainContext.zerocoinCount, ChainContext.zerocoinCount, same]

/-- A chain without zerocoins. -/
theorem zerocoinCount_of_noZerocoins {i : Nat} {denom : CoinDenomination}
    (none : ∀ hash ∈ state.chainActive, ∀ block, node.readBlockFromDisk hash = some block →
      block.NoZerocoins) : node.zerocoinCount state i denom = 0 := by
  apply List.sum_eq_zero
  intro term member
  obtain ⟨hash, listed, rfl⟩ := List.mem_map.mp member
  cases disk : node.readBlockFromDisk hash with
  | none => rfl
  | some block =>
      obtain ⟨mints, spends, -⟩ := lists_of_noZerocoins node
        (none hash (List.mem_of_mem_take listed) block disk)
      simp [CBlock.mintCount, CBlock.spendCount, mints, spends]

/-- One block more. -/
theorem zerocoinCount_concat {tip : Uint256} {block : CBlock}
    (chain : after.chainActive = state.chainActive ++ [tip]) (nonempty : state.chainActive ≠ [])
    (disk : node.readBlockFromDisk tip = some block) (denom : CoinDenomination) :
    node.zerocoinCount after state.chainActive.length denom =
      node.zerocoinCount state (state.chainActive.length - 1) denom +
        (block.mintCount denom - block.spendCount denom) := by
  have positive := List.length_pos_of_ne_nil nonempty
  rw [ChainContext.zerocoinCount, ChainContext.zerocoinCount, chain,
    List.take_of_length_le (by simp), List.take_of_length_le (by omega), List.map_append,
    List.sum_append]
  simp [disk]

/-- The conditions on a block that is connected. -/
structure Carries (node : ChainContext) (state : ChainState) (hash : Uint256)
    (pindex : ChainIndex) : Prop where
  below : pindex.nHeight < node.params.nBlockRecalculateAccumulators
  plain : ¬ (node.params.networkID = .main ∧
    pindex.nHeight = node.params.nFakeSerialBlockheightEnd + 1)
  clean : ∀ prev parent, pindex.hashPrev = some prev → state.mapBlockIndex prev = some parent →
    parent.nVersion ≤ 3 → ∀ other ∈ hash :: state.chainActive, ∀ block,
      node.readBlockFromDisk other = some block → block.NoZerocoins

/-- An entry off the chain is written. -/
theorem setEntry (invariant : SupplyCarried node state) {hash : Uint256}
    {pindex written : ChainIndex} (index : state.mapBlockIndex hash = some pindex)
    (parent : pindex.hashPrev = state.chainActive.getLast?)
    (linked : Linked node.hashGenesisBlock after)
    (entry : after.mapBlockIndex hash = some written)
    (sameParent : written.hashPrev = pindex.hashPrev)
    (sameVersion : written.nVersion = pindex.nVersion)
    (others : ∀ other, other ≠ hash → after.mapBlockIndex other = state.mapBlockIndex other)
    (chain : after.chainActive = state.chainActive)
    (zero : ∀ tip, state.mapBlockIndex state.coinsTip.hashBlock = some tip → tip.nVersion ≤ 3 →
      ∀ denom, written.mapZerocoinSupply denom = 0) : SupplyCarried node after := by
  have absent : hash ∉ state.chainActive := by
    apply invariant.linked.not_mem_of_parent
    rw [place_eq index, parent]
  have version : ∀ other found, after.mapBlockIndex other = some found →
      ∃ before, state.mapBlockIndex other = some before ∧ before.nVersion = found.nVersion := by
    intro other found there
    by_cases equal : other = hash
    · subst equal
      rw [entry] at there
      cases there
      exact ⟨pindex, index, sameVersion.symm⟩
    · exact ⟨found, others other equal ▸ there, rfl⟩
  refine ⟨linked, ?_, ?_⟩
  · intro i other found here there denom
    have different : other ≠ hash := by
      rintro rfl
      rw [chain] at here
      exact absent (List.mem_of_getElem? here)
    rw [others other different] at there
    rw [chain] at here
    rw [zerocoinCount_of_take (congrArg _ chain)]
    exact invariant.exact i other found here there denom
  · intro other found prev above there hashPrev found' old denom
    obtain ⟨before, was, version⟩ := version prev above found'
    by_cases equal : other = hash
    · subst equal
      rw [entry] at there
      cases there
      have tip : some prev = some state.coinsTip.hashBlock := by
        rw [← invariant.linked.bestBlock, ← parent, ← hashPrev]
        exact sameParent
      cases tip
      exact zero before was (version ▸ old) denom
    · rw [others other equal] at there
      exact invariant.untouched other found prev before there hashPrev was (version ▸ old) denom

/-- The chain is as before. -/
theorem sameLinked (linked : Linked node.hashGenesisBlock state) (place : after.place = state.place)
    (chain : after.chainActive = state.chainActive) (coins : after.coinsTip = state.coinsTip) :
    Linked node.hashGenesisBlock after := by
  obtain ⟨zero, root, tree, first, path, bestBlock⟩ := linked
  rw [← place] at zero root tree path
  rw [← chain] at first path bestBlock
  rw [← coins] at bestBlock
  exact ⟨zero, root, tree, first, path, bestBlock⟩

/-- The numbers that a block on top of an old version starts from are zero. -/
theorem startingSupply_of_old (invariant : SupplyCarried node state) {hash : Uint256}
    {pindex tip : ChainIndex} (index : state.mapBlockIndex hash = some pindex)
    (parent : pindex.hashPrev = state.chainActive.getLast?)
    (found : state.mapBlockIndex state.coinsTip.hashBlock = some tip) (old : tip.nVersion ≤ 3)
    (denom : CoinDenomination) : startingSupply pindex tip denom = 0 := by
  rw [startingSupply, if_neg (by omega)]
  rw [invariant.linked.bestBlock] at parent
  exact invariant.untouched hash pindex _ tip index parent found old denom

theorem refuses (same : node.SameNode ctx) (invariant : SupplyCarried node state)
    {vstate : CValidationState} {block : CBlock} {hash : Uint256} {pindex : ChainIndex}
    (index : state.mapBlockIndex hash = some pindex)
    (disk : ctx.readBlockFromDisk hash = some block)
    (parent : pindex.hashPrev = state.chainActive.getLast?)
    (carries : Carries node state hash pindex)
    (refuses : RefusesTip ctx vstate block hash pindex state after) : SupplyCarried node after := by
  have quiet : pindex.nHeight ≠ ctx.params.nBlockRecalculateAccumulators + 1 := by
    have below := carries.below
    rw [same.params]
    omega
  obtain ⟨found', there, sameBlock⟩ := refuses.indexes.found hash pindex index
  refine invariant.setEntry index parent (invariant.linked.sameChain refuses.toSameChain) there
    sameBlock.hashPrev sameBlock.nVersion (refuses.others quiet) refuses.chainActive ?_
  intro tip found old denom
  have zero := startingSupply_of_old invariant index parent found old
  rcases refuses.entry quiet with entry | ⟨written, entry, supply⟩
  · rw [entry] at there
    cases there
    rw [← zero denom, startingSupply, if_neg (by omega)]
  · rw [entry] at there
    cases there
    obtain ⟨tip', found', parentIndex⟩ := invariant.linked.pprev_of_parent parent
    rw [found] at found'
    cases found'
    have parentHash := parent
    rw [invariant.linked.bestBlock] at parentHash
    have none := carries.clean _ tip parentHash found old hash List.mem_cons_self block
      (same.readBlockFromDisk ▸ disk)
    rw [supply, parentIndex, updateZGICSupply_of_noZerocoins none (same.params ▸ carries.below)
      (same.params ▸ carries.plain), zero denom]

theorem connects (same : node.SameNode ctx) (invariant : SupplyCarried node state)
    {vstate : CValidationState} {hash : Uint256} {pindex bookedIndex : ChainIndex}
    {block : CBlock} {effects : BlockEffects} {booked : ChainState}
    (connects : ConnectsTip ctx state vstate hash after pindex block effects booked bookedIndex)
    (carries : Carries node state hash pindex) : SupplyCarried node after := by
  have quiet : pindex.nHeight ≠ ctx.params.nBlockRecalculateAccumulators + 1 := by
    have below := carries.below
    rw [same.params]
    omega
  have disk : node.readBlockFromDisk hash = some block := same.readBlockFromDisk ▸ connects.disk
  obtain ⟨rfl, updated, updates, bookedEq⟩ := bookSupply_eq_ok quiet connects.index connects.books
  obtain ⟨tip, found, parentIndex⟩ := invariant.linked.pprev_of_parent connects.parent
  rw [parentIndex] at updates
  have parentHash := connects.parent
  rw [invariant.linked.bestBlock] at parentHash
  have booked : bookedIndex.mapZerocoinSupply = updated.mapZerocoinSupply := by
    rw [bookedEq]
    rfl
  -- the numbers of the block, from those it starts from
  obtain ⟨fScriptChecks, undos, rounds, -⟩ := connectTransactions_eq_ok connects.transactions
  have mints : blockToZerocoinMintList ctx false block =
      (block.vtx.flatMap CTransaction.publicCoins).map PublicCoin.denomination :=
    zerocoinMintList_of_decoded (decoded_of_connectTxs (connectTxs_of_connectRounds rounds))
  have numbers : ∀ denom, bookedIndex.mapZerocoinSupply denom =
      startingSupply pindex tip denom + (block.mintCount denom - block.spendCount denom) ∧
      (0 ≤ startingSupply pindex tip denom → 0 ≤ bookedIndex.mapZerocoinSupply denom) := by
    intro denom
    obtain ⟨value, nonneg⟩ := updateZGICSupply_eq_ok (same.params ▸ carries.below)
      (same.params ▸ carries.plain) updates denom
    rw [mints] at value
    rw [booked]
    refine ⟨?_, nonneg⟩
    rw [value, Int.add_sub_assoc]
    rfl
  have clean : tip.nVersion ≤ 3 → ∀ other ∈ hash :: state.chainActive, ∀ block,
      node.readBlockFromDisk other = some block → block.NoZerocoins :=
    carries.clean _ tip parentHash found
  let middle : ChainState := { after with
    chainActive := state.chainActive, coinsTip := state.coinsTip }
  have carried : SupplyCarried node middle := by
    obtain ⟨-, -, sameBlock⟩ := connects.booked_indexes
    refine invariant.setEntry connects.index connects.parent
      (sameLinked invariant.linked connects.place rfl rfl) connects.entry sameBlock.hashPrev
      sameBlock.nVersion ?_ rfl ?_
    · intro other different
      exact (connects.others other different).trans (setIndex_of_ne _ _ different)
    · intro tip' found' old denom
      rw [found] at found'
      cases found'
      have zero := startingSupply_of_old invariant connects.index connects.parent found old denom
      obtain ⟨coins, spends, -⟩ := lists_of_noZerocoins node
        (clean old hash List.mem_cons_self block disk)
      have value := (numbers denom).1
      simp only [zero, CBlock.mintCount, CBlock.spendCount, coins, spends, List.map_nil,
        List.count_nil, Nat.cast_zero, sub_self, add_zero] at value
      exact value
  refine ⟨connects.linked invariant.linked, ?_, carried.untouched⟩
  intro i other found' here there denom
  rw [connects.chainActive] at here
  have positive := List.length_pos_of_ne_nil invariant.linked.nonempty
  rcases Nat.lt_or_ge i state.chainActive.length with old | new
  · rw [List.getElem?_append_left old] at here
    have prefixes : after.chainActive.take (i + 1) = middle.chainActive.take (i + 1) := by
      rw [connects.chainActive]
      exact List.take_append_of_le_length (by omega)
    rw [zerocoinCount_of_take prefixes]
    exact carried.exact i other found' here there denom
  · rw [List.getElem?_append_right new] at here
    obtain ⟨bound, equal⟩ := List.getElem?_eq_some_iff.mp here
    simp only [List.length_singleton, Nat.lt_one_iff] at bound
    simp only [bound, List.getElem_cons_zero] at equal
    subst equal
    have last : i = state.chainActive.length := by omega
    subst last
    rw [connects.entry] at there
    cases there
    have tipHere : state.chainActive[state.chainActive.length - 1]? =
        some state.coinsTip.hashBlock := by
      rw [← List.getLast?_eq_getElem?, invariant.linked.bestBlock]
    obtain ⟨tipCount, tipNonneg⟩ := invariant.exact _ _ tip tipHere found denom
    have start : startingSupply pindex tip denom =
        node.zerocoinCount state (state.chainActive.length - 1) denom := by
      by_cases old : tip.nVersion ≤ 3
      · rw [startingSupply_of_old invariant connects.index connects.parent found old,
          zerocoinCount_of_noZerocoins]
        intro other member
        exact clean old other (List.mem_cons_of_mem _ member)
      · rw [startingSupply, if_pos (by omega), tipCount]
    obtain ⟨value, nonneg⟩ := numbers denom
    refine ⟨?_, nonneg (by rw [start, ← tipCount]; exact tipNonneg)⟩
    rw [zerocoinCount_concat connects.chainActive invariant.linked.nonempty disk, ← start]
    exact value

theorem disconnects (invariant : SupplyCarried node state)
    {vstate : CValidationState} {hash hashPrev : Uint256} {pindex : ChainIndex} {block : CBlock}
    {vtxundo : List CTxUndo} {current : DisconnectState}
    (disconnects : DisconnectsTip ctx state vstate after hash hashPrev pindex block vtxundo
      current) : SupplyCarried node after := by
  refine ⟨disconnects.linked invariant.linked, ?_, ?_⟩
  · intro i other found here there denom
    rw [disconnects.chainActive, List.getElem?_dropLast] at here
    rw [disconnects.mapBlockIndex] at there
    split at here
    · have prefixes : after.chainActive.take (i + 1) = state.chainActive.take (i + 1) := by
        rw [disconnects.chainActive, List.dropLast_eq_take, List.take_take, min_eq_left (by omega)]
      rw [zerocoinCount_of_take prefixes]
      exact invariant.exact i other found here there denom
    · cases here
  · intro other found prev parent
    rw [disconnects.mapBlockIndex]
    exact invariant.untouched other found prev parent

/-- **One call** keeps the invariant. -/
theorem call (honest : node.HonestDisk) {action : TipCall}
    (carries : node.CarriesSupply state action) (invariant : SupplyCarried node state) :
    SupplyCarried node (state.call action) := by
  have same : node.SameNode action.ctx := by
    cases action with
    | connectTip ctx vstate hash fAlreadyChecked => exact carries.1
    | disconnectTip ctx vstate => exact carries
  have effect := callEffect invariant.linked honest same
  have linked := invariant.linked.call honest same
  generalize state.call action = after at effect linked ⊢
  cases effect with
  | unchanged => exact invariant
  | refused index disk parent refuses =>
      obtain ⟨below, plain, clean⟩ := carries.2 _ index
      exact invariant.refuses same index disk parent ⟨below, plain, clean⟩ refuses
  | connected connects =>
      obtain ⟨below, plain, clean⟩ := carries.2 _ connects.index
      exact invariant.connects same connects ⟨below, plain, clean⟩
  | broken db store fails left =>
      subst left
      exact ⟨linked, invariant.exact, invariant.untouched⟩
  | disconnected disconnects => exact invariant.disconnects disconnects

end SupplyCarried

/-- **The supply of zerocoins is exact.** In a run from the first block, with any
disconnections, connections and failed calls, the index of every block of the chain
has, for every denomination, the mints less the spends of the block and its
ancestors, and this is never negative. -/
theorem supplyExact_of_run (node : ChainContext) (start : ChainState) (actions : List TipCall)
    (linked : Linked node.hashGenesisBlock start)
    (atGenesis : start.chainActive = [node.hashGenesisBlock])
    (fresh : ∀ hash pindex, start.mapBlockIndex hash = some pindex →
      ∀ denom, pindex.mapZerocoinSupply denom = 0)
    (first : ∀ block, node.readBlockFromDisk node.hashGenesisBlock = some block →
      block.NoZerocoins)
    (honest : node.HonestDisk)
    (carries : Foundation.Run.AllSteps ChainState.call node.CarriesSupply start actions) :
    node.SupplyExact (actions.foldl ChainState.call start) := by
  have initial : SupplyCarried node start := by
    refine ⟨linked, ?_, fun hash pindex _ _ index _ _ _ => fresh hash pindex index⟩
    intro i hash pindex here index denom
    rw [fresh hash pindex index denom, SupplyCarried.zerocoinCount_of_noZerocoins]
    · exact ⟨rfl, Int.le_refl 0⟩
    · intro other member block disk
      rw [atGenesis, List.mem_singleton] at member
      subst member
      exact first block disk
  have last := Foundation.Run.invariant_of_steps
    (fun _ _ carries invariant => SupplyCarried.call honest carries invariant) initial carries
  exact last.exact

/-! ## A mint in a block of an old version -/

/-- Blocks of the regression test network up to height 12, the last one with a mint, and
blocks of the current version on top. -/
def versionBlock (nVersion : Int) (nHeight : Nat) : CBlock :=
  { blockAt (BitVec.ofNat 256 (100 + nHeight)) (BitVec.ofNat 256 (99 + nHeight))
      (regtestCoinBase nHeight ::
        if nHeight = 12 then
          [{ hash := 9000, vin := [{ prevout := ⟨1001, 0⟩, scriptSig := [1, 2] }]
             vout := [⟨COIN, [0xc1, 0, 0, 0, 0, 0, 7], -10⟩] }]
        else []) with
    nVersion := if nHeight ≤ 12 then nVersion else 5 }

theorem regtestBlocks_versionBlock (nVersion : Int) : RegtestBlocks (versionBlock nVersion) :=
  fun _ => ⟨rfl, rfl⟩

/-- The blocks up to a height are connected, one after the other. -/
def versionRun (nVersion : Int) (height : Nat) : List TipCall :=
  (List.range height).map fun i =>
    .connectTip (.regtest (versionBlock nVersion)) {} (BitVec.ofNat 256 (101 + i)) false

theorem fresh_regtest (blocks : Nat → CBlock) (hash : Uint256) (pindex : ChainIndex)
    (index : (ChainState.regtest blocks).mapBlockIndex hash = some pindex)
    (denom : CoinDenomination) : pindex.mapZerocoinSupply denom = 0 := by
  unfold ChainState.regtest at index
  dsimp only at index
  split at index
  · cases index
    rfl
  · obtain ⟨nHeight, -, rfl⟩ := Option.map_eq_some_iff.mp index
    rfl

/-- The calls of the run are of the node of the example. -/
theorem sameNode_of_mem_versionRun {nVersion : Int} {height : Nat} {action : TipCall}
    (member : action ∈ versionRun nVersion height) :
    (ChainContext.regtest (versionBlock nVersion)).SameNode action.ctx := by
  obtain ⟨i, -, rfl⟩ := List.mem_map.mp member
  exact ⟨rfl, rfl, rfl, rfl⟩

/-- The mint at height 12 is in the supply of the block on top of it. -/
theorem supplyExact_versionRun :
    (((versionRun 5 13).foldl ChainState.call (.regtest (versionBlock 5))).mapBlockIndex 113).map
        (fun pindex => pindex.mapZerocoinSupply .one) = some 1 ∧
      (ChainContext.regtest (versionBlock 5)).SupplyExact
        ((versionRun 5 13).foldl ChainState.call (.regtest (versionBlock 5))) := by
  refine ⟨by decide +kernel, supplyExact_of_run _ _ _
    (linked_regtest (regtestBlocks_versionBlock 5)) rfl (fresh_regtest _) nofun
    (honestDisk_regtest (regtestBlocks_versionBlock 5)) ?_⟩
  have tested : Foundation.Run.AllSteps ChainState.call (fun state action =>
      (ChainContext.regtest (versionBlock 5)).carriesSupply state action = true)
        (.regtest (versionBlock 5)) (versionRun 5 13) := by decide +kernel
  exact Foundation.Run.AllSteps.imp (fun _ _ both =>
      ChainContext.carriesSupply_of_test both.2 both.1)
    (tested.and_forall fun action => sameNode_of_mem_versionRun)

/-- The block on top of an old version starts from zero, although that version has a
mint. -/
theorem not_supplyExact_versionRun :
    ¬ ∀ (node : ChainContext) (start : ChainState) (actions : List TipCall),
      Linked node.hashGenesisBlock start → start.chainActive = [node.hashGenesisBlock] →
      (∀ hash pindex, start.mapBlockIndex hash = some pindex →
        ∀ denom, pindex.mapZerocoinSupply denom = 0) →
      (∀ block, node.readBlockFromDisk node.hashGenesisBlock = some block →
        block.NoZerocoins) →
      node.HonestDisk →
      Foundation.Run.AllSteps ChainState.call (fun _ action => node.SameNode action.ctx) start
        actions →
      node.SupplyExact (actions.foldl ChainState.call start) := by
  intro holds
  have supply := holds (.regtest (versionBlock 3)) (.regtest (versionBlock 3)) (versionRun 3 13)
    (linked_regtest (regtestBlocks_versionBlock 3)) rfl (fresh_regtest _) nofun
    (honestDisk_regtest (regtestBlocks_versionBlock 3)) (Foundation.Run.allSteps_of_forall ?_)
  · have here : ((versionRun 3 13).foldl ChainState.call
        (.regtest (versionBlock 3))).chainActive[13]? = some 113 := by decide +kernel
    obtain ⟨pindex, index⟩ : ∃ pindex, ((versionRun 3 13).foldl ChainState.call
        (.regtest (versionBlock 3))).mapBlockIndex 113 = some pindex :=
      Option.isSome_iff_exists.mp (by decide +kernel)
    have value := congrArg (Option.map fun pindex => pindex.mapZerocoinSupply .one) index
    rw [Option.map_some, (supply 13 113 pindex here index .one).1] at value
    revert value
    decide +kernel
  · exact fun _ action member => sameNode_of_mem_versionRun member

end GiantCore
