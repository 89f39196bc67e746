import GiantCore.Coins.Origins
import GiantCore.Validation.ChainRun
import Mathlib.Tactic.Linarith
import Mathlib.Tactic.Ring

/-! # The supply, recorded and recalculated

`ConnectBlock` records the money supply of a block on top of that of its parent. What
the block takes in are the outputs of the view that it spends, and the denominations of
the zerocoins that it spends. `RecalculateGICSupply` writes the records again. It reads
the outputs from the transactions on disk, and the value of a zerocoin from the sequence
number of its input, which is the denomination only where the rules on zerocoins were
applied. At one height it adds an adjustment to the record, but not to what it carries to
the next block.
-/

namespace GiantCore

open CValidationState

namespace ChainContext

variable (ctx : ChainContext)

/-- The value of the zerocoins that a transaction spends, as `ConnectBlock` takes it. -/
def redeemedValue (tx : CTransaction) : CAmount :=
  ((tx.vin.filter CTxIn.isZerocoinSpend).map fun txin =>
    (txInToZerocoinSpend ctx.validation.lib false txin).elim 0
      (fun spend => spend.denomination.toInt) * COIN).sum

/-- The transactions can be looked up by their hashes. -/
def Finds (state : ChainState) (known : List CTransaction) : Prop :=
  ∀ tx ∈ known, ∃ hashBlock, ctx.getTransaction state tx.hash = some (tx, hashBlock)

end ChainContext

namespace ChainState

variable (ctx : ChainContext) (state : ChainState)

/-- By how much the recalculation takes in more than `ConnectBlock` for the spends of
zerocoins in a block. -/
def misvalued (block : CBlock) : Except AcceptFailure CAmount := do
  let spends := block.vtx.filter CTransaction.hasZerocoinSpendInputs
  let values ← spends.mapM (state.previousValueIn ctx)
  return values.sum - (spends.map ctx.redeemedValue).sum

end ChainState

/-! ## One transaction -/

section

variable {ctx node : ChainContext} {state past : ChainState}

theorem redeemedValue_coinsAt (lib : node.validation.lib = ctx.validation.lib)
    (tx : CTransaction) :
    (((node.coinsAt past).coinSpends tx).map fun spend => spend.denomination * COIN).sum =
      ctx.redeemedValue tx := by
  unfold ConnectContext.coinSpends ChainContext.redeemedValue
  rw [List.map_map]
  congr 1
  apply List.map_congr_left
  intro txin _
  simp only [Function.comp, ChainContext.coinsAt, txInToZerocoinSpend, lib]
  cases ctx.validation.lib.deserializeSpend (txin.scriptSig.drop bignumSize) with
  | none => rfl
  | some data => rfl

/-- The first output of a coinstake has no value. -/
theorem rewrittenValueOut_eq (tx : CTransaction) :
    ChainState.rewrittenValueOut tx = (tx.vout.map CTxOut.nValue).sum := by
  unfold ChainState.rewrittenValueOut
  split
  · rename_i stakes
    unfold CTransaction.isCoinStake at stakes
    split at stakes
    · rename_i first second rest _ outputs
      have empty : first.nValue = 0 := by
        have isEmpty := (Bool.and_eq_true_iff.mp stakes).2
        exact beq_iff_eq.mp (Bool.and_eq_true_iff.mp isEmpty).1
      rw [outputs, List.tail_cons, List.map_cons (f := CTxOut.nValue) (a := first),
        List.sum_cons, empty, Int.zero_add]
    · cases stakes
  · rfl

/-- What an ordinary transaction spends is found on disk. -/
theorem previousValueIn_eq {view : CoinsMap} {known : List CTransaction} {tx : CTransaction}
    (origins : view.FromTxs known) (finds : ctx.Finds state known)
    (ordinary : tx.hasZerocoinSpendInputs = false) (spends : tx.isCoinBase = false)
    (available : view.haveInputs tx = true) :
    state.previousValueIn ctx tx = .ok (view.getValueIn tx) := by
  have inputs : ∀ vin : List CTxIn, (∀ txin ∈ vin, txin.isZerocoinSpend = false) →
      (∀ txin ∈ vin, (view txin.prevout.hash).isAvailable txin.prevout.n.toNat = true) →
      vin.mapM (state.previousValue ctx) = .ok (vin.map fun txin =>
        ((view txin.prevout.hash).vout[txin.prevout.n.toNat]?.getD CTxOut.null).nValue) := by
    intro vin
    induction vin with
    | nil =>
        intro _ _
        rfl
    | cons txin rest ih =>
        intro plain available
        have later := ih (fun other member => plain other (List.mem_cons_of_mem _ member))
          (fun other member => available other (List.mem_cons_of_mem _ member))
        have here := available txin List.mem_cons_self
        unfold CCoins.isAvailable at here
        split at here
        · rename_i out found
          have unspent : out.isNull = false := by
            rw [Bool.and_eq_true, Bool.not_eq_true'] at here
            exact here.1
          obtain ⟨txPrev, member, same, output⟩ := origins _ _ out found unspent
          obtain ⟨hashBlock, lookup⟩ := finds txPrev member
          rw [same] at lookup
          have value : state.previousValue ctx txin = .ok out.nValue := by
            simp [ChainState.previousValue, plain txin List.mem_cons_self, lookup, output,
              orUndefined, bind, Except.bind, pure, Except.pure]
          rw [List.mapM_cons, value, later, List.map_cons, found]
          rfl
        · cases here
  have plain : ∀ txin ∈ tx.vin, txin.isZerocoinSpend = false := by
    intro txin member
    rw [CTransaction.hasZerocoinSpendInputs, List.any_eq_false] at ordinary
    exact Bool.not_eq_true _ ▸ ordinary txin member
  have each : ∀ txin ∈ tx.vin,
      (view txin.prevout.hash).isAvailable txin.prevout.n.toNat = true := by
    rw [CoinsMap.haveInputs, spends, ordinary] at available
    simpa using available
  unfold ChainState.previousValueIn
  rw [spends, inputs tx.vin plain each]
  rfl

/-- What `ConnectBlock` adds for one transaction, and what the recalculation reads for
it. -/
theorem txAmounts_recalculated {view : CoinsMap} {known : List CTransaction} {tx : CTransaction}
    {amounts : TxAmounts} (lib : node.validation.lib = ctx.validation.lib)
    (origins : view.FromTxs known) (finds : ctx.Finds state known)
    (counted : (node.coinsAt past).txAmounts view tx = some amounts) :
    ChainState.rewrittenValueOut tx = amounts.nValueOut ∧
      if tx.hasZerocoinSpendInputs then amounts.nValueIn = ctx.redeemedValue tx
      else state.previousValueIn ctx tx = .ok amounts.nValueIn := by
  simp only [ConnectContext.txAmounts, Option.bind_eq_bind, Option.bind_eq_some_iff] at counted
  obtain ⟨nValueOut, total, counted⟩ := counted
  rw [rewrittenValueOut_eq, ← CTransaction.sum_of_getValueOut total]
  split
  · rename_i spends
    rw [if_pos spends] at counted
    cases counted
    exact ⟨rfl, redeemedValue_coinsAt lib tx⟩
  · rename_i ordinary
    rw [if_neg ordinary] at counted
    split at counted
    · rename_i coinBase
      cases counted
      refine ⟨rfl, ?_⟩
      unfold ChainState.previousValueIn
      rw [if_pos coinBase]
      rfl
    · rename_i spends
      split at counted
      · rename_i available
        cases counted
        refine ⟨rfl, ?_⟩
        exact previousValueIn_eq origins finds (Bool.not_eq_true _ ▸ ordinary)
          (Bool.not_eq_true _ ▸ spends) available
      · cases counted

/-! ## One block -/

/-- A total over a list that is not empty. -/
theorem exists_mapM_cons {α : Type} {value : α → Except AcceptFailure CAmount} {first : α}
    {rest : List α} {total : CAmount} :
    (∃ values, (first :: rest).mapM value = .ok values ∧ values.sum = total) ↔
      ∃ amount, value first = .ok amount ∧
        ∃ values, rest.mapM value = .ok values ∧ values.sum = total - amount := by
  simp only [List.mapM_cons, Foundation.Checks.bind_eq_ok, pure, Except.pure, Except.ok.injEq]
  constructor
  · rintro ⟨_, ⟨amount, here, values, later, rfl⟩, rfl⟩
    refine ⟨amount, here, values, later, ?_⟩
    rw [List.sum_cons, add_sub_cancel_left]
  · rintro ⟨amount, here, values, later, sum⟩
    refine ⟨amount :: values, ⟨amount, here, values, later, rfl⟩, ?_⟩
    rw [List.sum_cons, sum, add_sub_cancel]

/-- **The loop and the recalculation.** They give out the same. They take in the same but
for the spends of zerocoins. -/
theorem connectTxs_recalculated {nHeight : Int} {done known txs : List CTransaction}
    {connect last : ConnectState} {undos : List CTxUndo}
    (lib : node.validation.lib = ctx.validation.lib)
    (connects : (node.coinsAt past).connectTxs nHeight done txs connect = some (undos, last))
    (origins : connect.view.FromTxs known) (finds : ctx.Finds state (known ++ txs)) :
    last.nValueOut = connect.nValueOut + (txs.map ChainState.rewrittenValueOut).sum ∧
    ∀ total, (∃ values, txs.mapM (state.previousValueIn ctx) = .ok values ∧ values.sum = total) ↔
      ∃ values, (txs.filter CTransaction.hasZerocoinSpendInputs).mapM
          (state.previousValueIn ctx) = .ok values ∧
        values.sum = total - (last.nValueIn - connect.nValueIn) +
          ((txs.filter CTransaction.hasZerocoinSpendInputs).map ctx.redeemedValue).sum := by
  induction txs generalizing done connect known undos with
  | nil =>
      cases connects
      refine ⟨by simp, ?_⟩
      intro total
      simp [pure, Except.pure, eq_comm]
  | cons tx rest ih =>
      obtain ⟨undo, next, others, first, remaining, rfl⟩ :=
        (node.coinsAt past).connectTxs_cons connects
      obtain ⟨amounts, counted, valueIn, valueOut⟩ :=
        (node.coinsAt past).connectTx_amounts first
      have before : ctx.Finds state known := fun other member =>
        finds other (List.mem_append_left _ member)
      have rest : ctx.Finds state (known ++ [tx] ++ rest) := by
        rw [List.append_assoc, List.singleton_append]
        exact finds
      obtain ⟨outs, ins⟩ :=
        ih remaining ((node.coinsAt past).fromTxs_connectTx first origins) rest
      obtain ⟨out, value⟩ := txAmounts_recalculated lib origins before counted
      refine ⟨?_, ?_⟩
      · rw [outs, valueOut, List.map_cons, List.sum_cons, out, Int.add_assoc]
      · intro total
        rw [exists_mapM_cons]
        split at value
        · rename_i spends
          rw [List.filter_cons_of_pos spends, exists_mapM_cons]
          refine exists_congr fun amount => and_congr_right fun _ => ?_
          rw [ins, List.map_cons, List.sum_cons, valueIn, value]
          refine exists_congr fun values => and_congr_right fun _ => ?_
          constructor
          · intro sum
            linarith
          · intro sum
            linarith
        · rename_i ordinary
          rw [List.filter_cons_of_neg (by simpa using ordinary), value]
          simp only [Except.ok.injEq, exists_eq_left', ins, valueIn]
          refine exists_congr fun values => and_congr_right fun _ => ?_
          constructor
          · intro sum
            linarith
          · intro sum
            linarith

/-- **A block that was connected.** The recalculation gives what `ConnectBlock` recorded,
less what the spends of zerocoins are misvalued by. -/
theorem recalculatedNet_eq_ok_iff {block : CBlock} {vstate : CValidationState} {ref : IndexRef}
    {pindex : ChainIndex} {view : CoinsView} {effects : BlockEffects} {known : List CTransaction}
    (lib : node.validation.lib = ctx.validation.lib)
    (went : past.connectTransactions node block vstate ref pindex view = .ok effects)
    (origins : view.coins.FromTxs known) (finds : ctx.Finds state (known ++ block.vtx))
    {net : CAmount} :
    state.recalculatedNet ctx block = .ok net ↔
      ∃ amount, state.misvalued ctx block = .ok amount ∧ net = effects.net - amount := by
  obtain ⟨fScriptChecks, undos, rounds, -⟩ := ChainState.connectTransactions_eq_ok went
  obtain ⟨outs, ins⟩ :=
    connectTxs_recalculated lib (connectTxs_of_connectRounds rounds) origins finds
  have outs : effects.loop.connect.nValueOut = _ := outs
  rw [Int.zero_add] at outs
  have net_eq : effects.net = effects.loop.connect.nValueOut - effects.loop.connect.nValueIn := rfl
  have left : state.recalculatedNet ctx block = .ok net ↔
      ∃ values, block.vtx.mapM (state.previousValueIn ctx) = .ok values ∧
        values.sum = effects.loop.connect.nValueOut - net := by
    simp only [ChainState.recalculatedNet, Foundation.Checks.bind_eq_ok, pure, Except.pure,
      Except.ok.injEq, ← outs]
    refine exists_congr fun values => and_congr_right fun _ => ?_
    constructor
    · intro same
      linarith
    · intro same
      linarith
  have right : (∃ amount, state.misvalued ctx block = .ok amount ∧ net = effects.net - amount) ↔
      ∃ values, (block.vtx.filter CTransaction.hasZerocoinSpendInputs).mapM
          (state.previousValueIn ctx) = .ok values ∧
        values.sum = effects.net - net + ((block.vtx.filter
          CTransaction.hasZerocoinSpendInputs).map ctx.redeemedValue).sum := by
    simp only [ChainState.misvalued, Foundation.Checks.bind_eq_ok, pure, Except.pure,
      Except.ok.injEq]
    constructor
    · rintro ⟨_, ⟨values, read, rfl⟩, same⟩
      exact ⟨values, read, by linarith⟩
    · rintro ⟨values, read, same⟩
      exact ⟨_, ⟨values, read, rfl⟩, by linarith⟩
  rw [left, right, ins, net_eq]
  refine exists_congr fun values => and_congr_right fun _ => ?_
  constructor
  · intro same
    linarith
  · intro same
    linarith

end

/-! ## The records of a chain -/

/-- The record of a height is one that `ConnectBlock` does not leave as it computed it: the
first and the last that its one recalculation writes, once that has happened. -/
def ChainContext.Rewritten (ctx : ChainContext) (state : ChainState) (height : Nat) : Prop :=
  ctx.params.nBlockRecalculateAccumulators + 1 < state.chainActive.length ∧
    ctx.params.nZerocoinStartHeight ≤ ctx.params.nBlockRecalculateAccumulators ∧
    ((height : Int) = ctx.params.nZerocoinStartHeight ∨
      (height : Int) = ctx.params.nBlockRecalculateAccumulators)

/-- **The records are the ones that `ConnectBlock` computed.** The blocks were connected
one after the other, from no coins at all, and each index holds the supply that was booked
for its block. With them come the coins and the transactions of the chain so far. -/
inductive ComputesSupply (ctx : ChainContext) (state : ChainState) :
    List Uint256 → CoinsMap → List CTransaction → Prop where
  | genesis {hash : Uint256} : ComputesSupply ctx state [hash] (fun _ => CCoins.clear) []
  | connect {hashes : List Uint256} {view : CoinsMap} {known : List CTransaction}
      {hash hashBlock : Uint256} {block : CBlock} {node : ChainContext} {past : ChainState}
      {vstate : CValidationState} {pindex entry prev : ChainIndex} {effects : BlockEffects}
      (before : ComputesSupply ctx state hashes view known)
      (disk : ctx.readBlockFromDisk hash = some block)
      (lib : node.validation.lib = ctx.validation.lib)
      (went : past.connectTransactions node block vstate (.entry hash) pindex ⟨view, hashBlock⟩ =
        .ok effects)
      (index : state.mapBlockIndex hash = some entry) (parent : state.pprev entry = some prev)
      (records : ¬ ctx.Rewritten state hashes.length →
        entry.nMoneySupply = (ChainState.bookAmounts effects (some prev) entry).nMoneySupply) :
      ComputesSupply ctx state (hashes ++ [hash]) effects.loop.connect.view (known ++ block.vtx)

namespace ComputesSupply

variable {ctx : ChainContext} {state : ChainState}

/-- What the chain says of one block. -/
structure Computed (ctx : ChainContext) (state : ChainState) (height : Nat) (hash : Uint256)
    (block : CBlock) (entry prev : ChainIndex) (net : CAmount) : Prop where
  disk : ctx.readBlockFromDisk hash = some block
  index : state.mapBlockIndex hash = some entry
  parent : state.pprev entry = some prev
  records : ¬ ctx.Rewritten state height → entry.nMoneySupply = prev.nMoneySupply + net
  recalculated : ∀ amount, state.recalculatedNet ctx block = .ok amount ↔
    ∃ excess, state.misvalued ctx block = .ok excess ∧ amount = net - excess

theorem computed {hashes : List Uint256} {view : CoinsMap} {known : List CTransaction}
    (computes : ComputesSupply ctx state hashes view known) (finds : ctx.Finds state known) :
    view.FromTxs known ∧ ∀ i hash, hashes[i + 1]? = some hash →
      ∃ block entry prev net, Computed ctx state (i + 1) hash block entry prev net := by
  induction computes with
  | genesis =>
      refine ⟨?_, ?_⟩
      · intro txid n out found
        simp [CCoins.clear] at found
      · intro i hash found
        simp at found
  | @connect hashes view known hash _ block node past _ _ entry prev effects before disk lib went
      index parent records ih =>
      obtain ⟨origins, earlier⟩ := ih fun tx member => finds tx (List.mem_append_left _ member)
      obtain ⟨_, _, rounds, -⟩ := ChainState.connectTransactions_eq_ok went
      refine ⟨(node.coinsAt past).fromTxs_connectTxs (connectTxs_of_connectRounds rounds) origins,
        ?_⟩
      intro i other found
      by_cases inside : i + 1 < hashes.length
      · rw [List.getElem?_append_left inside] at found
        exact earlier i other found
      · rw [List.getElem?_append_right (by omega)] at found
        obtain ⟨bound, same⟩ := List.getElem?_eq_some_iff.mp found
        simp only [List.length_singleton, Nat.lt_one_iff] at bound
        have last : i + 1 = hashes.length := by omega
        simp only [bound, List.getElem_cons_zero] at same
        subst same
        refine ⟨block, entry, prev, effects.net, disk, index, parent, ?_, ?_⟩
        · rw [last]
          exact records
        · intro amount
          exact recalculatedNet_eq_ok_iff lib went origins finds

/-- The records of a chain do not depend on other blocks. -/
theorem mono {after : ChainState} {hashes : List Uint256} {view : CoinsMap}
    {known : List CTransaction} (computes : ComputesSupply ctx state hashes view known)
    (longer : state.chainActive.length ≤ after.chainActive.length)
    (same : ∀ hash ∈ hashes, ∀ entry, state.mapBlockIndex hash = some entry →
      after.mapBlockIndex hash = some entry ∧ after.pprev entry = state.pprev entry) :
    ComputesSupply ctx after hashes view known := by
  induction computes with
  | genesis => exact .genesis
  | @connect hashes _ _ hash _ _ _ _ _ _ entry _ _ _ disk lib went index parent records ih =>
      have before := ih fun other member => same other (List.mem_append_left _ member)
      obtain ⟨there, sameParent⟩ :=
        same hash (List.mem_append_right _ List.mem_cons_self) entry index
      refine .connect before disk lib went there (sameParent.trans parent) ?_
      intro kept
      refine records fun rewritten => kept ⟨?_, rewritten.2⟩
      have long := rewritten.1
      omega

end ComputesSupply

section

variable {ctx : ChainContext} {state after : ChainState} {vstate : CValidationState}
  {hash : Uint256} {pindex bookedIndex : ChainIndex} {block : CBlock} {effects : BlockEffects}
  {booked : ChainState}

/-- The tip gets the supply that is booked for it, on top of its parent's. -/
theorem ConnectsTip.supply {genesis : Uint256} (linked : ChainState.Linked genesis state)
    (connects : ChainState.ConnectsTip ctx state vstate hash after pindex block effects booked
      bookedIndex) :
    ∃ entry prev, after.mapBlockIndex hash = some entry ∧ after.pprev entry = some prev ∧
      entry.nMoneySupply = (ChainState.bookAmounts effects (some prev) entry).nMoneySupply := by
  obtain ⟨_, _, sameBlock⟩ := connects.booked_indexes
  have outside := linked.not_mem_of_parent connects.place_tip
  have last := linked.bestBlock
  have different : state.coinsTip.hashBlock ≠ hash := by
    rintro rfl
    exact outside (List.mem_of_getLast? last)
  have parentHash : bookedIndex.hashPrev = some state.coinsTip.hashBlock :=
    sameBlock.hashPrev.trans (connects.parent.trans last)
  -- the parent is in the index, also after the call
  obtain ⟨prev, there⟩ : ∃ prev, after.mapBlockIndex state.coinsTip.hashBlock = some prev := by
    obtain ⟨_, place⟩ := linked.tip
    rw [← connects.place] at place
    obtain ⟨prev, index, -⟩ := Option.map_eq_some_iff.mp place
    exact ⟨prev, index⟩
  refine ⟨_, prev, connects.entry, ?_, ?_⟩
  · rw [ChainState.pprev, parentHash]
    exact there
  · obtain ⟨middle, found, updated, -, index, rfl, same, rfl⟩ :=
      ChainState.bookSupply_cases connects.books
    have parent : middle.pprev found = some prev := by
      have kept : middle.mapBlockIndex state.coinsTip.hashBlock = some prev := by
        rw [connects.others _ different] at there
        exact (ChainState.setIndex_of_ne _ _ different).symm.trans there
      have foundHash : found.hashPrev = some state.coinsTip.hashBlock :=
        same.hashPrev.symm.trans parentHash
      rw [ChainState.pprev, foundHash]
      exact kept
    rw [parent]
    rfl

end

/-! ## The loop of the recalculation -/

namespace ChainState

variable {ctx : ChainContext} {state current : ChainState}

/-- The recalculation reads nothing that it writes. -/
theorem recalculatedNet_congr (transactions : current.txIndex = state.txIndex) (block : CBlock) :
    current.recalculatedNet ctx block = state.recalculatedNet ctx block := by
  have lookup : ctx.getTransaction current = ctx.getTransaction state := by
    funext hash
    unfold ChainContext.getTransaction
    rw [transactions]
  have values : current.previousValue ctx = state.previousValue ctx := by
    funext txin
    unfold previousValue
    rw [lookup]
  have valuesIn : current.previousValueIn ctx = state.previousValueIn ctx := by
    funext tx
    unfold previousValueIn
    rw [values]
  unfold recalculatedNet
  rw [valuesIn]

/-- One round, if the block can be read. -/
theorem recalculateSupply_eq_ok {carried net : CAmount} {hash : Uint256} {pindex : ChainIndex}
    {block : CBlock} (transactions : current.txIndex = state.txIndex)
    (coins : current.coinsTip = state.coinsTip)
    (index : current.mapBlockIndex hash = some pindex)
    (disk : ctx.readBlockFromDisk hash = some block)
    (recalculated : state.recalculatedNet ctx block = .ok net) :
    recalculateSupply ctx (current, carried) hash =
      .ok ((current.setIndex hash { pindex with
        nMoneySupply := carried + net + state.supplyAdjustment ctx pindex.nHeight
        }).writeBlockIndex hash, carried + net) := by
  have adjustment : current.supplyAdjustment ctx = state.supplyAdjustment ctx := by
    funext nHeight
    unfold supplyAdjustment ChainContext.getInvalidUTXOValue
    rw [coins]
  simp only [recalculateSupply, index, disk, recalculatedNet_congr transactions, recalculated,
    adjustment, orUndefined, Option.elim_some, bind, Except.bind, pure, Except.pure]

/-- **The loop of `RecalculateGICSupply`** writes the running sum, and at one height the
adjustment on top of it. -/
theorem foldlM_recalculateSupply {hashes : List Uint256} (carried : CAmount)
    (transactions : current.txIndex = state.txIndex) (coins : current.coinsTip = state.coinsTip)
    (distinct : hashes.Nodup) (net : Uint256 → CAmount)
    (readable : ∀ hash ∈ hashes, ∃ pindex block, current.mapBlockIndex hash = some pindex ∧
      ctx.readBlockFromDisk hash = some block ∧
      state.recalculatedNet ctx block = .ok (net hash)) :
    ∃ after total, hashes.foldlM (recalculateSupply ctx) (current, carried) = .ok (after, total) ∧
      after.chainActive = current.chainActive ∧
      (∀ other, other ∉ hashes → after.mapBlockIndex other = current.mapBlockIndex other) ∧
      ∀ i hash pindex, hashes[i]? = some hash → current.mapBlockIndex hash = some pindex →
        after.mapBlockIndex hash = some { pindex with
          nMoneySupply := carried + ((hashes.take (i + 1)).map net).sum +
            state.supplyAdjustment ctx pindex.nHeight } := by
  induction hashes generalizing current carried with
  | nil => exact ⟨current, carried, rfl, rfl, fun _ _ => rfl, by simp⟩
  | cons hash rest ih =>
      obtain ⟨pindex, block, index, disk, recalculated⟩ := readable hash List.mem_cons_self
      obtain ⟨fresh, distinct⟩ := List.nodup_cons.mp distinct
      have round : recalculateSupply ctx (current, carried) hash = _ :=
        recalculateSupply_eq_ok transactions coins index disk recalculated
      have kept : ∀ other, other ≠ hash →
          (current.setIndex hash { pindex with
            nMoneySupply := carried + net hash + state.supplyAdjustment ctx pindex.nHeight
            }).mapBlockIndex other = current.mapBlockIndex other :=
        fun other different => setIndex_of_ne _ _ different
      have later : ∀ other ∈ rest, ∃ pindex' block',
          (current.setIndex hash { pindex with
            nMoneySupply := carried + net hash + state.supplyAdjustment ctx pindex.nHeight
            }).mapBlockIndex other = some pindex' ∧
          ctx.readBlockFromDisk other = some block' ∧
          state.recalculatedNet ctx block' = .ok (net other) := by
        intro other member
        obtain ⟨pindex', block', index', found⟩ := readable other (List.mem_cons_of_mem _ member)
        exact ⟨pindex', block', (kept other fun same => fresh (same ▸ member)).trans index', found⟩
      obtain ⟨after, total, went, chain, others, supplies⟩ :=
        @ih ((current.setIndex hash { pindex with
          nMoneySupply := carried + net hash + state.supplyAdjustment ctx pindex.nHeight
          }).writeBlockIndex hash) (carried + net hash) transactions coins distinct later
      refine ⟨after, total, ?_, chain, ?_, ?_⟩
      · rw [List.foldlM_cons, round]
        exact went
      · intro other absent
        rw [List.mem_cons, not_or] at absent
        rw [others other absent.2]
        exact kept other absent.1
      · intro i other pindex' found index'
        cases i with
        | zero =>
            cases found
            rw [index] at index'
            cases index'
            rw [others hash fresh]
            simp [writeBlockIndex]
        | succ i =>
            have found : rest[i]? = some other := found
            have different : other ≠ hash := by
              rintro rfl
              exact fresh (List.mem_of_getElem? found)
            rw [supplies i other pindex' found ((kept other different).trans index'),
              List.take_succ_cons, List.map_cons, List.sum_cons, Int.add_assoc carried]

/-- The loop fails on a block that cannot be read. -/
theorem readable_of_foldlM {hashes : List Uint256} {carried : CAmount}
    {result : ChainState × CAmount} (transactions : current.txIndex = state.txIndex)
    (went : hashes.foldlM (recalculateSupply ctx) (current, carried) = .ok result) :
    ∀ hash ∈ hashes, ∃ block net, ctx.readBlockFromDisk hash = some block ∧
      state.recalculatedNet ctx block = .ok net := by
  induction hashes generalizing current carried with
  | nil => exact nofun
  | cons hash rest ih =>
      rw [List.foldlM_cons, Foundation.Checks.bind_eq_ok] at went
      obtain ⟨⟨next, carry⟩, first, remaining⟩ := went
      simp only [recalculateSupply, Foundation.Checks.bind_eq_ok, orUndefined_eq_ok,
        recalculatedNet_congr transactions] at first
      obtain ⟨pindex, index, block, disk, net, recalculated, same⟩ := first
      cases same
      intro other member
      rcases List.mem_cons.mp member with rfl | later
      · exact ⟨block, net, disk, recalculated⟩
      · have kept : ((current.setIndex hash { pindex with
            nMoneySupply := carried + net + current.supplyAdjustment ctx pindex.nHeight
            }).writeBlockIndex hash).txIndex = state.txIndex := transactions
        exact ih kept remaining other later

/-! ## The whole recalculation -/

variable (ctx state)

/-- `nMoneySupply` of the block at a height of the chain. -/
def moneySupplyAt (height : Nat) : CAmount :=
  (state.chainActive[height]?.bind state.mapBlockIndex).elim 0 ChainIndex.nMoneySupply

/-- The amount by which the block at a height is misvalued. -/
def misvaluedAt (height : Nat) : CAmount :=
  match state.chainActive[height]?.bind ctx.readBlockFromDisk with
  | none => 0
  | some block =>
      match state.misvalued ctx block with
      | .ok amount => amount
      | .error _ => 0

/-- What the recalculation adds for a block. -/
def recalculatedOf (hash : Uint256) : CAmount :=
  match ctx.readBlockFromDisk hash with
  | none => 0
  | some block =>
      match state.recalculatedNet ctx block with
      | .ok net => net
      | .error _ => 0

variable {ctx state}

theorem height_nodeAt {genesis : Uint256} (linked : Linked genesis state) :
    (ctx.nodeAt state).height = state.chainActive.length - 1 := by
  obtain ⟨prev, place⟩ := linked.tip
  obtain ⟨pindex, index, same⟩ := Option.map_eq_some_iff.mp place
  have tip : state.tip = some ⟨state.coinsTip.hashBlock, pindex.nHeight⟩ := by
    rw [tip, linked.bestBlock, Option.bind_some, index]
    rfl
  have node : (ctx.nodeAt state).tip = state.tip := rfl
  unfold NodeContext.height
  rw [node, tip]
  exact congrArg Prod.snd same

/-- The blocks of the chain in terms of their heights. -/
theorem computed_at {genesis : Uint256} {view : CoinsMap} {known : List CTransaction}
    (linked : Linked genesis state)
    (computes : ComputesSupply ctx state state.chainActive view known)
    (finds : ctx.Finds state known) {height : Nat} {hash : Uint256} (positive : 1 ≤ height)
    (here : state.chainActive[height]? = some hash) :
    ∃ block entry net, ctx.readBlockFromDisk hash = some block ∧
      state.mapBlockIndex hash = some entry ∧ entry.nHeight = height ∧
      (∃ prev, state.pprev entry = some prev ∧
        prev.nMoneySupply = state.moneySupplyAt (height - 1)) ∧
      (¬ ctx.Rewritten state height →
        state.moneySupplyAt height = state.moneySupplyAt (height - 1) + net) ∧
      ∀ amount, state.recalculatedNet ctx block = .ok amount ↔
        ∃ excess, state.misvalued ctx block = .ok excess ∧ amount = net - excess := by
  obtain ⟨below, rfl⟩ : ∃ below, height = below + 1 := ⟨height - 1, by omega⟩
  obtain ⟨block, entry, prev, net, computed⟩ := (computes.computed finds).2 below hash here
  obtain ⟨hashPrev, place, parents⟩ := linked.path (below + 1) hash here
  rw [place_eq computed.index, Option.some.injEq, Prod.mk.injEq] at place
  obtain ⟨rfl, height⟩ := place
  have supply : state.moneySupplyAt (below + 1) = entry.nMoneySupply := by
    rw [moneySupplyAt, here, Option.bind_some, computed.index]
    rfl
  have supplyPrev : state.moneySupplyAt below = prev.nMoneySupply := by
    have parent := computed.parent
    rw [pprev, parents below rfl] at parent
    rw [moneySupplyAt, parent]
    rfl
  refine ⟨block, entry, net, computed.disk, computed.index, height,
    ⟨prev, computed.parent, supplyPrev.symm⟩, ?_, computed.recalculated⟩
  intro kept
  rw [supply, Nat.add_sub_cancel, supplyPrev]
  exact computed.records kept

theorem chainFrom_eq {start : Nat} (inside : start < state.chainActive.length) :
    state.chainFrom start = some (state.chainActive.drop start) := by
  unfold chainFrom
  rw [if_neg (by omega), Int.toNat_natCast]
  cases remaining : state.chainActive.drop start with
  | nil =>
      have length := congrArg List.length remaining
      rw [List.length_drop, List.length_nil] at length
      omega
  | cons hash rest => rfl

/-- The supply that the recalculation carries past a height. -/
def carriedAt (ctx : ChainContext) (state : ChainState) (start : Nat) (base : CAmount)
    (height : Nat) : CAmount :=
  base + (((state.chainActive.drop start).take (height + 1 - start)).map
    (state.recalculatedOf ctx)).sum

theorem carriedAt_succ {start height : Nat} {base : CAmount} {hash : Uint256}
    (positive : 1 ≤ start) (late : start ≤ height)
    (here : state.chainActive[height]? = some hash) :
    state.carriedAt ctx start base height =
      state.carriedAt ctx start base (height - 1) + state.recalculatedOf ctx hash := by
  have first : height + 1 - start = height - start + 1 := by omega
  have before : height - 1 + 1 - start = height - start := by omega
  have found : (state.chainActive.drop start)[height - start]? = some hash := by
    rw [List.getElem?_drop, Nat.add_sub_cancel' late, here]
  rw [carriedAt, carriedAt, first, before, List.take_add_one, found]
  simp [Int.add_assoc]

theorem carriedAt_base {start : Nat} {base : CAmount} (positive : 1 ≤ start) :
    state.carriedAt ctx start base (start - 1) = base := by
  have none : start - 1 + 1 - start = 0 := by omega
  rw [carriedAt, none, List.take_zero, List.map_nil, List.sum_nil, Int.add_zero]

/-- What the recalculation does for a block that can be read. -/
theorem recalculatedOf_eq {hash : Uint256} {block : CBlock} {net : CAmount}
    (disk : ctx.readBlockFromDisk hash = some block)
    (recalculated : state.recalculatedNet ctx block = .ok net) :
    state.recalculatedOf ctx hash = net := by
  simp only [recalculatedOf, disk, recalculated]

theorem misvaluedAt_eq {height : Nat} {hash : Uint256} {block : CBlock} {excess : CAmount}
    (here : state.chainActive[height]? = some hash)
    (disk : ctx.readBlockFromDisk hash = some block)
    (misvalued : state.misvalued ctx block = .ok excess) :
    state.misvaluedAt ctx height = excess := by
  simp only [misvaluedAt, here, Option.bind_some, disk, misvalued]

/-- The spends of zerocoins in the blocks from a height on can be read again. -/
def SpendsReadable (ctx : ChainContext) (state : ChainState) (start : Nat) : Prop :=
  ∀ height hash block, start ≤ height → state.chainActive[height]? = some hash →
    ctx.readBlockFromDisk hash = some block → ∃ excess, state.misvalued ctx block = .ok excess

section

variable {genesis : Uint256} {view : CoinsMap} {known : List CTransaction} {start : Nat}

/-- What one round carries to the next. -/
theorem carriedAt_computed (linked : Linked genesis state)
    (computes : ComputesSupply ctx state state.chainActive view known)
    (finds : ctx.Finds state known) (positive : 1 ≤ start)
    (readable : state.SpendsReadable ctx start) {base : CAmount} {height : Nat}
    (late : start ≤ height) (inside : height < state.chainActive.length)
    (kept : ¬ ctx.Rewritten state height) :
    state.carriedAt ctx start base height =
      state.carriedAt ctx start base (height - 1) +
        (state.moneySupplyAt height - state.moneySupplyAt (height - 1)) -
        state.misvaluedAt ctx height := by
  have here := List.getElem?_eq_getElem inside
  obtain ⟨block, entry, net, disk, -, -, -, records, recalculated⟩ :=
    computed_at linked computes finds (by omega) here
  obtain ⟨excess, misvalued⟩ := readable height _ block late here disk
  have added := recalculatedOf_eq disk ((recalculated _).mpr ⟨excess, misvalued, rfl⟩)
  rw [carriedAt_succ positive late here, added, misvaluedAt_eq here disk misvalued, records kept]
  ring

/-- **`RecalculateGICSupply`** from a height of the chain. -/
theorem recalculateGICSupply_eq_ok (linked : Linked genesis state)
    (computes : ComputesSupply ctx state state.chainActive view known)
    (finds : ctx.Finds state known) (positive : 1 ≤ start)
    (inside : start < state.chainActive.length) (readable : state.SpendsReadable ctx start) :
    ∃ after base, state.recalculateGICSupply ctx start = .ok (after, true) ∧
      ((start : Int) ≠ ctx.params.nZerocoinStartHeight →
        base = state.moneySupplyAt (start - 1)) ∧
      (∀ height < start, after.moneySupplyAt height = state.moneySupplyAt height) ∧
      ∀ height, start ≤ height → height < state.chainActive.length →
        after.moneySupplyAt height = state.carriedAt ctx start base height +
          state.supplyAdjustment ctx height := by
  have positions : ∀ hash ∈ state.chainActive.drop start, ∃ height, start ≤ height ∧
      state.chainActive[height]? = some hash := by
    intro hash member
    obtain ⟨i, found⟩ := List.mem_iff_getElem?.mp member
    rw [List.getElem?_drop] at found
    exact ⟨start + i, by omega, found⟩
  have blocks : ∀ hash ∈ state.chainActive.drop start, ∃ pindex block,
      state.mapBlockIndex hash = some pindex ∧ ctx.readBlockFromDisk hash = some block ∧
      state.recalculatedNet ctx block = .ok (state.recalculatedOf ctx hash) := by
    intro hash member
    obtain ⟨height, late, here⟩ := positions hash member
    obtain ⟨block, entry, net, disk, index, -, -, -, recalculated⟩ :=
      computed_at linked computes finds (by omega) here
    obtain ⟨excess, misvalued⟩ := readable height hash block late here disk
    have added := (recalculated _).mpr ⟨excess, misvalued, rfl⟩
    exact ⟨entry, block, index, disk, (recalculatedOf_eq disk added).symm ▸ added⟩
  have first := List.getElem?_eq_getElem inside
  obtain ⟨_, entry, _, _, index, _, ⟨prev, parent, supplyPrev⟩, _, _⟩ :=
    computed_at linked computes finds positive first
  have head : (state.chainActive.drop start).head? = state.chainActive[start]? := by
    rw [List.head?_drop]
  have notAbove : ¬ (start : Int) > (ctx.nodeAt state).height := by
    rw [height_nodeAt linked]
    omega
  obtain ⟨base, baseEq⟩ : ∃ base, base =
      if (start : Int) = ctx.params.nZerocoinStartHeight then supplyAtZerocoinStart
      else prev.nMoneySupply := ⟨_, rfl⟩
  have distinct : (state.chainActive.drop start).Nodup :=
    linked.nodup.sublist (List.drop_sublist _ _)
  have transactions : state.txIndex = state.txIndex := rfl
  obtain ⟨after, total, went, chain, others, supplies⟩ :=
    foldlM_recalculateSupply base transactions rfl distinct (state.recalculatedOf ctx) blocks
  refine ⟨after, base, ?_, ?_, ?_, ?_⟩
  · simp only [recalculateGICSupply, if_neg notAbove, chainFrom_eq inside, head, first, index,
      parent, ← baseEq, went, orUndefined, Option.elim_some, Option.bind_some, bind, Except.bind,
      pure, Except.pure]
  · intro ordinary
    rw [baseEq, if_neg ordinary, supplyPrev]
  · intro height early
    unfold moneySupplyAt
    rw [chain]
    obtain ⟨hash, here⟩ : ∃ hash, state.chainActive[height]? = some hash :=
      ⟨_, List.getElem?_eq_getElem (by omega)⟩
    have absent : hash ∉ state.chainActive.drop start := by
      intro member
      obtain ⟨other, late, there⟩ := positions hash member
      have bound := (List.getElem?_eq_some_iff.mp here).1
      have same := (List.getElem?_inj bound linked.nodup).mp (here.trans there.symm)
      omega
    rw [here, Option.bind_some, Option.bind_some, others hash absent]
  · intro height late bound
    have here := List.getElem?_eq_getElem bound
    obtain ⟨_, pindex, _, _, index, nHeight, _, _, _⟩ :=
      computed_at linked computes finds (by omega) here
    have found : (state.chainActive.drop start)[height - start]? =
        some state.chainActive[height] := by
      rw [List.getElem?_drop, Nat.add_sub_cancel' late, here]
    have length : height + 1 - start = height - start + 1 := by omega
    have written := supplies (height - start) _ pindex found index
    rw [moneySupplyAt, chain, here, Option.bind_some, written, carriedAt, length, nHeight]
    rfl

/-- A recalculation that goes through has read all spends. -/
theorem spendsReadable_of_eq_ok (linked : Linked genesis state)
    (computes : ComputesSupply ctx state state.chainActive view known)
    (finds : ctx.Finds state known) (positive : 1 ≤ start)
    (inside : start < state.chainActive.length) {after : ChainState} {changed : Bool}
    (went : state.recalculateGICSupply ctx start = .ok (after, changed)) :
    state.SpendsReadable ctx start := by
  have notAbove : ¬ (start : Int) > (ctx.nodeAt state).height := by
    rw [height_nodeAt linked]
    omega
  simp only [recalculateGICSupply, if_neg notAbove, chainFrom_eq inside,
    Foundation.Checks.bind_eq_ok, orUndefined_eq_ok, Option.some.injEq] at went
  obtain ⟨hashes, rfl, first, -, prev, -, ⟨last, total⟩, loop, -⟩ := went
  have transactions : state.txIndex = state.txIndex := rfl
  have read := readable_of_foldlM transactions loop
  intro height hash block late here disk
  have member : hash ∈ state.chainActive.drop start := by
    apply List.mem_of_getElem?
    rw [List.getElem?_drop]
    exact (Nat.add_sub_cancel' late).symm ▸ here
  obtain ⟨found, net, there, recalculated⟩ := read hash member
  obtain ⟨other, _, _, onDisk, _, _, _, _, iff⟩ :=
    computed_at linked computes finds (by omega) here
  rw [disk] at there onDisk
  cases there
  cases onDisk
  obtain ⟨excess, misvalued, -⟩ := (iff net).mp recalculated
  exact ⟨excess, misvalued⟩

end

/-! ## When the two agree -/

/-- Two running sums agree from a height on exactly if each adds the same at each
height. -/
theorem running_sums_agree_iff (carried supply excess : Nat → CAmount) (start stop : Nat)
    (base : carried start = supply start)
    (step : ∀ height, start ≤ height → height < stop →
      carried (height + 1) =
        carried height + (supply (height + 1) - supply height) - excess (height + 1)) :
    (∀ height, start ≤ height → height ≤ stop → carried height = supply height) ↔
      ∀ height, start < height → height ≤ stop → excess height = 0 := by
  constructor
  · intro agree height above below
    obtain ⟨before, rfl⟩ : ∃ before, height = before + 1 := ⟨height - 1, by omega⟩
    have next := step before (by omega) (by omega)
    rw [agree _ (by omega) below, agree before (by omega) (by omega)] at next
    linarith
  · intro none height
    induction height with
    | zero =>
        intro above _
        have first : start = 0 := by omega
        rw [first] at base
        exact base
    | succ height ih =>
        intro above below
        by_cases first : start = height + 1
        · rw [← first]
          exact base
        · rw [step height (by omega) (by omega), ih (by omega) (by omega),
            none (height + 1) (by omega) below]
          ring

/-- No height from the start on is the one of the adjustment. -/
def Unadjusted (ctx : ChainContext) (state : ChainState) (start : Nat) : Prop :=
  ∀ height : Nat, start ≤ height → height < state.chainActive.length →
    (height : Int) ≠ ctx.params.nBlockRecalculateAccumulators

/-- **The recalculation agrees with the records.** Without special adjustment it leaves
every supply as it is. From the height of the adjustment on, every later supply differs
from the one there by as much as the records do, so that it includes the adjustment. -/
def AgreesFrom (ctx : ChainContext) (state : ChainState) (start : Nat) : Prop :=
  ∃ after changed, state.recalculateGICSupply ctx start = .ok (after, changed) ∧
    ((start : Int) ≠ ctx.params.nZerocoinStartHeight → state.Unadjusted ctx start →
      ∀ height < state.chainActive.length,
        after.moneySupplyAt height = state.moneySupplyAt height) ∧
    ∀ adjusted : Nat, (adjusted : Int) = ctx.params.nBlockRecalculateAccumulators →
      start ≤ adjusted → ∀ height, adjusted ≤ height → height < state.chainActive.length →
        after.moneySupplyAt height - after.moneySupplyAt adjusted =
          state.moneySupplyAt height - state.moneySupplyAt adjusted

/-- **What the blocks have to be like.** The spends of zerocoins can be read again. Where
nothing is adjusted none is misvalued. Past the height of the adjustment none is, but
that the block right after it is by minus the adjustment. -/
structure SuppliesAlike (ctx : ChainContext) (state : ChainState) (start : Nat) : Prop where
  readable : state.SpendsReadable ctx start
  plain : (start : Int) ≠ ctx.params.nZerocoinStartHeight → state.Unadjusted ctx start →
    ∀ height, start ≤ height → height < state.chainActive.length →
      state.misvaluedAt ctx height = 0
  carried : ∀ adjusted : Nat, (adjusted : Int) = ctx.params.nBlockRecalculateAccumulators →
    start ≤ adjusted → ∀ height, adjusted < height → height < state.chainActive.length →
      state.misvaluedAt ctx height =
        if height = adjusted + 1 then -state.supplyAdjustment ctx adjusted else 0

section

variable {genesis : Uint256} {view : CoinsMap} {known : List CTransaction} {start : Nat}

/-- The first half, for a recalculation that goes through. -/
theorem plain_iff (linked : Linked genesis state)
    (computes : ComputesSupply ctx state state.chainActive view known)
    (finds : ctx.Finds state known) (positive : 1 ≤ start)
    (inside : start < state.chainActive.length) (readable : state.SpendsReadable ctx start)
    {after : ChainState} {base : CAmount} (baseEq : base = state.moneySupplyAt (start - 1))
    (unadjusted : state.Unadjusted ctx start)
    (earlier : ∀ height < start, after.moneySupplyAt height = state.moneySupplyAt height)
    (later : ∀ height, start ≤ height → height < state.chainActive.length →
      after.moneySupplyAt height = state.carriedAt ctx start base height +
        state.supplyAdjustment ctx height) :
    (∀ height < state.chainActive.length,
        after.moneySupplyAt height = state.moneySupplyAt height) ↔
      ∀ height, start ≤ height → height < state.chainActive.length →
        state.misvaluedAt ctx height = 0 := by
  have unchanged : ∀ height, start ≤ height → height < state.chainActive.length →
      after.moneySupplyAt height = state.carriedAt ctx start base height := by
    intro height late bound
    rw [later height late bound, supplyAdjustment, if_neg (unadjusted height late bound),
      Int.add_zero]
  have kept : ∀ height, start ≤ height → height < state.chainActive.length →
      ¬ ctx.Rewritten state height := by
    rintro height late bound ⟨past, order, here⟩
    have nonneg : 0 ≤ ctx.params.nBlockRecalculateAccumulators := by omega
    have other := unadjusted ctx.params.nBlockRecalculateAccumulators.toNat (by omega) (by omega)
    omega
  have sums := running_sums_agree_iff (state.carriedAt ctx start base) state.moneySupplyAt
    (state.misvaluedAt ctx) (start - 1) (state.chainActive.length - 1) (by
      rw [carriedAt_base positive, baseEq]) (by
      intro height late bound
      exact carriedAt_computed linked computes finds positive readable (by omega) (by omega)
        (kept _ (by omega) (by omega)))
  constructor
  · intro agree height late bound
    refine sums.mp ?_ height (by omega) (by omega)
    intro other above below
    by_cases first : other = start - 1
    · rw [first, carriedAt_base positive, baseEq]
    · rw [← unchanged other (by omega) (by omega)]
      exact agree other (by omega)
  · intro none height bound
    by_cases early : height < start
    · exact earlier height early
    · rw [unchanged height (by omega) bound]
      refine sums.mpr ?_ height (by omega) (by omega)
      intro other above below
      exact none other (by omega) (by omega)

/-- The second half. -/
theorem carried_iff (linked : Linked genesis state)
    (computes : ComputesSupply ctx state state.chainActive view known)
    (finds : ctx.Finds state known) (positive : 1 ≤ start)
    (readable : state.SpendsReadable ctx start) {after : ChainState} {base : CAmount}
    {adjusted : Nat} (here : (adjusted : Int) = ctx.params.nBlockRecalculateAccumulators)
    (late : start ≤ adjusted) (inside : adjusted < state.chainActive.length)
    (later : ∀ height, start ≤ height → height < state.chainActive.length →
      after.moneySupplyAt height = state.carriedAt ctx start base height +
        state.supplyAdjustment ctx height) :
    (∀ height, adjusted ≤ height → height < state.chainActive.length →
        after.moneySupplyAt height - after.moneySupplyAt adjusted =
          state.moneySupplyAt height - state.moneySupplyAt adjusted) ↔
      ∀ height, adjusted < height → height < state.chainActive.length →
        state.misvaluedAt ctx height =
          if height = adjusted + 1 then -state.supplyAdjustment ctx adjusted else 0 := by
  have past : ∀ height, adjusted < height → height < state.chainActive.length →
      after.moneySupplyAt height = state.carriedAt ctx start base height := by
    intro height above bound
    have other : (height : Int) ≠ ctx.params.nBlockRecalculateAccumulators := by omega
    rw [later height (by omega) bound, supplyAdjustment, if_neg other, Int.add_zero]
  have kept : ∀ height, adjusted < height → ¬ ctx.Rewritten state height := by
    rintro height above ⟨-, order, same⟩
    omega
  have sums := running_sums_agree_iff
    (fun height => after.moneySupplyAt height - after.moneySupplyAt adjusted)
    (fun height => state.moneySupplyAt height - state.moneySupplyAt adjusted)
    (fun height => state.misvaluedAt ctx height +
      if height = adjusted + 1 then state.supplyAdjustment ctx adjusted else 0)
    adjusted (state.chainActive.length - 1) (by rw [sub_self, sub_self]) (by
      intro height above below
      have step : state.carriedAt ctx start base (height + 1) = _ :=
        carriedAt_computed linked computes finds positive readable (by omega) (by omega)
          (kept _ (by omega))
      rw [Nat.add_sub_cancel] at step
      rw [past (height + 1) (by omega) (by omega), step]
      by_cases first : height = adjusted
      · subst first
        rw [if_pos rfl, later height late inside]
        ring
      · rw [if_neg (by omega), past height (by omega) (by omega)]
        ring)
  constructor
  · intro agree height above bound
    have zero := sums.mp (fun other late below => agree other late (by omega)) height above
      (by omega)
    split
    · rename_i first
      rw [if_pos first] at zero
      linarith
    · rename_i first
      rw [if_neg first] at zero
      linarith
  · intro excess height above bound
    refine sums.mpr ?_ height above (by omega)
    intro other later below
    rw [excess other later (by omega)]
    split
    · ring
    · ring

end

end ChainState

open ChainState in
/-- **When the recalculation agrees with the incremental supply.** For every chain whose
records `ConnectBlock` computed and every start above the first block, it does exactly if
no spend of a zerocoin is misvalued and no block above the height of the adjustment is in
the chain, unless the adjustment is nothing or is made up for by the block after it. -/
theorem agreesFrom_iff (ctx : ChainContext) (state : ChainState) (genesis : Uint256)
    (view : CoinsMap) (known : List CTransaction) (start : Nat)
    (linked : Linked genesis state)
    (computes : ComputesSupply ctx state state.chainActive view known)
    (finds : ctx.Finds state known) (positive : 1 ≤ start) :
    state.AgreesFrom ctx start ↔ state.SuppliesAlike ctx start := by
  by_cases inside : start < state.chainActive.length
  · constructor
    · rintro ⟨after, changed, went, plain, carried⟩
      have readable := spendsReadable_of_eq_ok linked computes finds positive inside went
      obtain ⟨last, base, done, baseEq, earlier, later⟩ :=
        recalculateGICSupply_eq_ok linked computes finds positive inside readable
      rw [went] at done
      cases done
      refine ⟨readable, ?_, ?_⟩
      · intro ordinary unadjusted
        exact (plain_iff linked computes finds positive inside readable (baseEq ordinary)
          unadjusted earlier later).mp (plain ordinary unadjusted)
      · intro adjusted here late height above bound
        exact (carried_iff linked computes finds positive readable here late (by omega) later).mp
          (carried adjusted here late) height above bound
    · rintro ⟨readable, plain, carried⟩
      obtain ⟨after, base, went, baseEq, earlier, later⟩ :=
        recalculateGICSupply_eq_ok linked computes finds positive inside readable
      refine ⟨after, true, went, ?_, ?_⟩
      · intro ordinary unadjusted
        exact (plain_iff linked computes finds positive inside readable (baseEq ordinary)
          unadjusted earlier later).mpr (plain ordinary unadjusted)
      · intro adjusted here late height above bound
        exact (carried_iff linked computes finds positive readable here late (by omega) later).mpr
          (carried adjusted here late) height above bound
  · -- the start is above the tip, and nothing is done
    have above : (start : Int) > (ctx.nodeAt state).height := by
      rw [height_nodeAt linked]
      omega
    have nothing : state.recalculateGICSupply ctx start = .ok (state, false) := by
      simp only [recalculateGICSupply, if_pos above]
      rfl
    refine iff_of_true ⟨state, false, nothing, fun _ _ _ _ => rfl, ?_⟩ ⟨?_, ?_, ?_⟩
    · intro adjusted _ late height after bound
      omega
    · intro height hash block late here
      have bound := (List.getElem?_eq_some_iff.mp here).1
      omega
    · intro _ _ height late bound
      omega
    · intro adjusted _ late height after bound
      omega

/-! ## Chains that are connected block by block -/

section

variable {ctx node : ChainContext} {state after : ChainState} {vstate : CValidationState}
  {hash genesis : Uint256} {pindex bookedIndex : ChainIndex} {block : CBlock}
  {effects : BlockEffects} {booked : ChainState} {view : CoinsMap} {known : List CTransaction}

/-- Away from the one height a new tip leaves the records of the chain alone. -/
theorem ComputesSupply.before_connectsTip (linked : ChainState.Linked genesis state)
    (connects : ChainState.ConnectsTip node state vstate hash after pindex block effects booked
      bookedIndex)
    (quiet : pindex.nHeight ≠ node.params.nBlockRecalculateAccumulators + 1)
    (computes : ComputesSupply ctx state state.chainActive view known) :
    ComputesSupply ctx after state.chainActive view known := by
  obtain ⟨rfl, -⟩ := ChainState.bookSupply_eq_ok quiet connects.index connects.books
  have outside := linked.not_mem_of_parent connects.place_tip
  have kept : ∀ other ∈ state.chainActive, after.mapBlockIndex other =
      state.mapBlockIndex other := by
    intro other member
    have different : other ≠ hash := fun same => outside (same ▸ member)
    rw [connects.others other different]
    exact ChainState.setIndex_of_ne _ _ different
  refine computes.mono ?_ ?_
  · rw [connects.chainActive, List.length_append]
    omega
  · intro other member entry index
    refine ⟨(kept other member).trans index, ?_⟩
    unfold ChainState.pprev
    cases parent : entry.hashPrev with
    | none => rfl
    | some hashPrev => exact kept hashPrev (linked.mem_of_parent member index parent)

/-- A new tip with the supply that is booked for it. -/
theorem ComputesSupply.connectsTip (linked : ChainState.Linked genesis state)
    (connects : ChainState.ConnectsTip node state vstate hash after pindex block effects booked
      bookedIndex)
    (lib : node.validation.lib = ctx.validation.lib)
    (disk : ctx.readBlockFromDisk hash = some block)
    (before : ComputesSupply ctx after state.chainActive state.coinsTip.coins known) :
    ComputesSupply ctx after after.chainActive after.coinsTip.coins (known ++ block.vtx) := by
  obtain ⟨entry, prev, index, parent, records⟩ := ConnectsTip.supply linked connects
  rw [connects.chainActive, connects.coinsTip]
  exact .connect before disk lib connects.transactions index parent fun _ => records

end

/-! ## A chain of the regression test network -/

/-- Twelve blocks. A transaction of the last one spends an output of the first. -/
def spendingBlock (nHeight : Nat) : CBlock :=
  { blockAt (BitVec.ofNat 256 (100 + nHeight)) (BitVec.ofNat 256 (99 + nHeight))
      (regtestCoinBase nHeight ::
        if nHeight = 12 then
          [{ hash := 9000, vin := [{ prevout := ⟨1001, 0⟩, scriptSig := [1, 2] }]
             vout := [⟨COIN, [0x51], -10⟩] }]
        else []) with
    nVersion := 5 }

/-- Such a network, where zerocoin starts with the first block and the supply is adjusted
at a given height. -/
def adjustingContext (adjusted : Int) : ChainContext :=
  { ChainContext.regtest spendingBlock with
    validation := { ValidationContext.mainContext 0 with
      node := { NodeContext.mainNode 0 with
        params := { CChainParams.regtest with
          nZerocoinStartHeight := 1
          nBlockRecalculateAccumulators := adjusted } } } }

/-- The first blocks are connected. -/
def adjustingState (adjusted : Int) : Nat → ChainState
  | 0 => .regtest spendingBlock
  | n + 1 =>
      ((adjustingState adjusted n).connectTip (adjustingContext adjusted) {}
        (BitVec.ofNat 256 (101 + n)) false).1

/-- Their transactions. -/
def spendingTxs : Nat → List CTransaction
  | 0 => []
  | n + 1 => spendingTxs n ++ (spendingBlock (n + 1)).vtx

theorem connectsTip_adjustingState (adjusted : Int) (n : Nat) (few : n < 12)
    (went : ((adjustingState adjusted n).connectTip (adjustingContext adjusted) {}
      (BitVec.ofNat 256 (101 + n)) false).2.toBool = true) :
    ∃ pindex effects booked bookedIndex,
      ChainState.ConnectsTip (adjustingContext adjusted) (adjustingState adjusted n) {}
        (BitVec.ofNat 256 (101 + n)) (adjustingState adjusted (n + 1)) pindex
        (spendingBlock (n + 1)) effects booked bookedIndex := by
  have disk : (adjustingContext adjusted).readBlockFromDisk (BitVec.ofNat 256 (101 + n)) =
      some (spendingBlock (n + 1)) := by
    have height : ∀ i < 12, regtestHeight (BitVec.ofNat 256 (101 + i)) = some (i + 1) := by
      decide
    show (regtestHeight _).map spendingBlock = _
    rw [height n few]
    rfl
  have later : ∀ block,
      (adjustingContext adjusted).readBlockFromDisk (BitVec.ofNat 256 (101 + n)) = some block →
      block.hash ≠ (adjustingContext adjusted).hashGenesisBlock := by
    intro block found
    rw [disk] at found
    cases found
    have different : ∀ i < 12, BitVec.ofNat 256 (100 + (i + 1)) ≠ 100 := by
      decide
    exact different n few
  generalize called : (adjustingState adjusted n).connectTip (adjustingContext adjusted) {}
    (BitVec.ofNat 256 (101 + n)) false = result at went
  obtain ⟨after, result⟩ := result
  have next : adjustingState adjusted (n + 1) = after := congrArg Prod.fst called
  rw [next]
  rcases ChainState.connectTip_cases later called with ⟨-, failure, rfl⟩ |
    ⟨_, _, _, _, _, _, failure, rfl⟩ | ⟨⟨pindex, block, effects, booked, bookedIndex, connects⟩, -⟩
  · cases went
  · cases went
  · have same := connects.disk
    rw [disk] at same
    cases same
    exact ⟨pindex, effects, booked, bookedIndex, connects⟩

/-- **The chain is one that `ConnectBlock` computed**, if it does not reach the
recalculation. -/
theorem computesSupply_adjustingState (adjusted : Int) (n : Nat) (few : n ≤ 12)
    (far : n < adjusted + 1)
    (went : ∀ i < n, ((adjustingState adjusted i).connectTip (adjustingContext adjusted) {}
      (BitVec.ofNat 256 (101 + i)) false).2.toBool = true) :
    (adjustingState adjusted n).chainActive.length = n + 1 ∧
    ChainState.Linked 100 (adjustingState adjusted n) ∧
    ComputesSupply (adjustingContext adjusted) (adjustingState adjusted n)
      (adjustingState adjusted n).chainActive (adjustingState adjusted n).coinsTip.coins
      (spendingTxs n) := by
  induction n with
  | zero =>
      have named : RegtestBlocks spendingBlock := fun _ => ⟨rfl, rfl⟩
      exact ⟨rfl, linked_regtest named, .genesis⟩
  | succ n ih =>
      obtain ⟨length, linked, computes⟩ := ih (by omega) (by omega) fun i less => went i (by omega)
      obtain ⟨pindex, effects, booked, bookedIndex, connects⟩ :=
        connectsTip_adjustingState adjusted n (by omega) (went n (by omega))
      have height := linked.nHeight_eq_length connects.place_tip
      have quiet : pindex.nHeight ≠
          (adjustingContext adjusted).params.nBlockRecalculateAccumulators + 1 := by
        have params : (adjustingContext adjusted).params.nBlockRecalculateAccumulators =
          adjusted := rfl
        rw [params, height, length]
        omega
      refine ⟨?_, connects.linked linked, ?_⟩
      · rw [connects.chainActive, List.length_append, length]
        rfl
      · apply ComputesSupply.connectsTip linked connects rfl connects.disk
        exact computes.before_connectsTip linked connects quiet

theorem finds_adjustingState (adjusted : Int) (n : Nat)
    (found : ∀ tx ∈ spendingTxs n, ((adjustingContext adjusted).getTransaction
      (adjustingState adjusted n) tx.hash).map Prod.fst = some tx) :
    (adjustingContext adjusted).Finds (adjustingState adjusted n) (spendingTxs n) := by
  intro tx member
  obtain ⟨⟨_, hashBlock⟩, lookup, rfl⟩ := Option.map_eq_some_iff.mp (found tx member)
  exact ⟨hashBlock, lookup⟩

/-- Without spends of zerocoins nothing is misvalued. -/
theorem misvalued_of_ordinary {ctx : ChainContext} {state : ChainState} {block : CBlock}
    (ordinary : ∀ tx ∈ block.vtx, tx.hasZerocoinSpendInputs = false) :
    state.misvalued ctx block = .ok 0 := by
  have none : block.vtx.filter CTransaction.hasZerocoinSpendInputs = [] := by
    rw [List.filter_eq_nil_iff]
    intro tx member
    rw [ordinary tx member]
    exact Bool.false_ne_true
  unfold ChainState.misvalued
  rw [none]
  rfl

/-- Twelve blocks far below the adjustment. Their records stay as they are. -/
theorem agreesFrom_adjustingState :
    (adjustingState 999999999 12).AgreesFrom (adjustingContext 999999999) 2 := by
  obtain ⟨length, linked, computes⟩ :=
    computesSupply_adjustingState 999999999 12 le_rfl (by decide) (by decide +kernel)
  have finds := finds_adjustingState 999999999 12 (by decide +kernel)
  have readable : ∀ hash block, (adjustingContext 999999999).readBlockFromDisk hash = some block →
      (adjustingState 999999999 12).misvalued (adjustingContext 999999999) block = .ok 0 := by
    intro hash block disk
    obtain ⟨nHeight, -, rfl⟩ := Option.map_eq_some_iff.mp disk
    apply misvalued_of_ordinary
    intro tx member
    unfold spendingBlock at member
    rcases List.mem_cons.mp member with rfl | member
    · rfl
    · split at member
      · cases List.mem_singleton.mp member
        rfl
      · cases member
  apply (agreesFrom_iff _ _ _ _ _ 2 linked computes finds (by decide)).mpr
  refine ⟨fun _ hash block _ _ disk => ⟨0, readable hash block disk⟩, ?_, ?_⟩
  · intro _ _ height _ _
    unfold ChainState.misvaluedAt
    split
    · rfl
    · rename_i block found
      obtain ⟨hash, -, disk⟩ := Option.bind_eq_some_iff.mp found
      rw [readable hash block disk]
  · intro adjusted here _ height above below
    have recalculates :
      (adjustingContext 999999999).params.nBlockRecalculateAccumulators = 999999999 := rfl
    omega

/-- The supply is adjusted at the first block. The second one was connected on top of the
adjusted supply, and recalculating takes the adjustment out of it. -/
theorem not_agreesFrom_adjustingState :
    ¬ ∀ (ctx : ChainContext) (state : ChainState) (genesis : Uint256) (view : CoinsMap)
      (known : List CTransaction) (start : Nat), ChainState.Linked genesis state →
      ComputesSupply ctx state state.chainActive view known → ctx.Finds state known →
      1 ≤ start → state.AgreesFrom ctx start := by
  intro agrees
  obtain ⟨-, linked, -⟩ :=
    computesSupply_adjustingState 1 1 (by decide) (by decide) (by decide +kernel)
  obtain ⟨_, _, _, _, first⟩ := connectsTip_adjustingState 1 0 (by decide) (by decide +kernel)
  obtain ⟨_, _, _, _, second⟩ := connectsTip_adjustingState 1 1 (by decide) (by decide +kernel)
  -- the record of the first block is one that the recalculation has written
  have before : ComputesSupply (adjustingContext 1) (adjustingState 1 2)
      (adjustingState 1 1).chainActive (adjustingState 1 1).coinsTip.coins (spendingTxs 1) := by
    have found : (((adjustingState 1 2).mapBlockIndex 101).bind
        (adjustingState 1 2).pprev).isSome = true := by
      decide +kernel
    obtain ⟨prev, found⟩ := Option.isSome_iff_exists.mp found
    obtain ⟨entry, index, parent⟩ := Option.bind_eq_some_iff.mp found
    rw [first.chainActive, first.coinsTip]
    refine .connect .genesis first.disk rfl first.transactions index parent ?_
    intro kept
    refine absurd ⟨?_, ?_, Or.inl rfl⟩ kept
    · decide +kernel
    · decide
  have computes := ComputesSupply.connectsTip linked second rfl second.disk before
  have finds := finds_adjustingState 1 2 (by decide +kernel)
  obtain ⟨after, changed, went, -, carried⟩ :=
    agrees _ _ _ _ _ 1 (second.linked linked) computes finds le_rfl
  have kept := carried 1 rfl le_rfl 2 (by decide) (by decide +kernel)
  have went : (adjustingState 1 2).recalculateGICSupply (adjustingContext 1) 1 =
    .ok (after, changed) := went
  have recalculated :
      ((adjustingState 1 2).recalculateGICSupply (adjustingContext 1) 1).toOption.map
        (fun result => result.1.moneySupplyAt 2 - result.1.moneySupplyAt 1) =
      some ((adjustingState 1 2).moneySupplyAt 2 - (adjustingState 1 2).moneySupplyAt 1) := by
    rw [went]
    exact congrArg some kept
  revert recalculated
  decide +kernel

end GiantCore
