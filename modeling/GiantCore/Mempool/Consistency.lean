import GiantCore.Mempool.Node

/-! # The consistency of the memory pool

The runs of a node from its first block and an empty pool. `mapNextTx` marks exactly the
inputs of the pool that are no zerocoin spends, their outputs are there, the total size is
that of the entries, and no assertion of `check` fails, as long as two things do not happen:

- A transaction with zerocoin spends beside other inputs comes in while zerocoin is not
  active. `AcceptToMemoryPool` looks up none of its inputs and `addUnchecked` marks none,
  but `check` expects all of them that are no zerocoin spends.
- A block overwrites coins that are not spent. They are no longer mature, or no longer
  there, for the transactions of the pool that spend them.
-/

namespace GiantCore

open ChainState TxPool

/-- **The pool fits itself and the coins of the chain.** -/
structure TxPool.Consistent (pool : TxPool) (coins : CoinsMap) : Prop where
  hashes : ∀ hash tx, pool.lookup hash = some tx → tx.hash = hash
  /-- Each mark is one of an input, and each input has its mark. -/
  marks : ∀ out spender, pool.mapNextTx.lookup out = some spender ↔
    ∃ tx txin, pool.lookup spender.ptx = some tx ∧ tx.vin[spender.n]? = some txin ∧
      txin.isZerocoinSpend = false ∧ txin.prevout = out
  inputs : ∀ hash tx, pool.lookup hash = some tx → ∀ txin ∈ tx.vin,
    txin.isZerocoinSpend = false →
      (∃ parent, pool.lookup txin.prevout.hash = some parent ∧
        txin.prevout.n.toNat < parent.vout.length) ∨
      (coins txin.prevout.hash).isAvailable txin.prevout.n.toNat = true
  total : pool.totalTxSize = pool.sizes.sum

/-- The node before its first block is connected, with an empty pool. -/
structure MempoolNode.Begins (known : Uint256 → CTransaction) (node : ChainContext)
    (start : MempoolNode) : Prop where
  linked : Linked node.hashGenesisBlock start.chain
  atGenesis : start.chain.chainActive = [node.hashGenesisBlock]
  noCoins : start.chain.coinsTip.coins = fun _ => CCoins.clear
  unwritten : ∀ hash pindex, start.chain.mapBlockIndex hash = some pindex → pindex.vtxundo = none
  honest : node.HonestDisk
  names : node.NamesTransactions known
  empty : start.pool = { fSanityCheck := start.pool.fSanityCheck }

/-- What has to be so in the state before a call: nothing mixed comes in while zerocoin is
not active, and a block that is connected to the tip overwrites nothing. -/
def MempoolCall.Regular (node : ChainContext) (state : MempoolNode) : MempoolCall → Prop
  | .acceptToMemoryPool ctx _ _ tx _ _ _ =>
      ctx.poolZerocoinActive state.chain = true ∨ tx.mixed = false
  | .connectTip _ _ hash _ => ∀ pindex block, state.chain.mapBlockIndex hash = some pindex →
      node.readBlockFromDisk hash = some block →
      pindex.hashPrev = state.chain.chainActive.getLast? →
      OverwritesNone pindex.nHeight block.vtx state.chain.coinsTip.coins
  | .disconnectTip ctx _ _ => ctx.poolZerocoinActive state.chain = true ∨
      ∀ hash block, state.chain.chainActive.getLast? = some hash →
        node.readBlockFromDisk hash = some block → ∀ tx ∈ block.vtx, tx.mixed = false
  | .removeConflicts _ => True
  | .clear => True

/-- The condition on a step; a node that has stopped does nothing. -/
def MempoolNode.RegularStep (node : ChainContext) (state : Option MempoolNode)
    (call : MempoolCall) : Prop :=
  ∀ running, state = some running → call.Regular node running

namespace MempoolNode

variable {known : Uint256 → CTransaction} {node : ChainContext} {start state : MempoolNode}

theorem sourced_clear (top : Int) : CoinsMap.Sourced known top fun _ => CCoins.clear := by
  refine ⟨⟨?_, ?_, ?_⟩, ?_, ?_, ?_⟩
  · intro txid n out found full
    cases found
  all_goals
    intro txid alive
    cases alive

/-- The first state. -/
theorem Begins.holds (begins : Begins known node start) :
    ∃ canon, Holds known node start canon := by
  refine ⟨_, ⟨.of_genesis begins.linked begins.atGenesis begins.noCoins begins.unwritten,
    fun _ _ height _ _ => sourced_clear height, ?_⟩, ?_, ?_⟩
  · rw [begins.noCoins]
    intro txid stake
    cases stake
  · rw [begins.empty]
    exact indexed_clear start.pool
  · intro hash tx here
    rw [begins.empty] at here
    cases here

/-- **One call** keeps every input backed. -/
theorem Holds.call {canon : Uint256 → UtxoView} (holds : Holds known node state canon)
    (honest : node.HonestDisk) (names : node.NamesTransactions known) {call : MempoolCall}
    (fits : call.Fits node known) (regular : call.Regular node state) {next : MempoolNode}
    (went : state.call call = some next) : ∃ canon, Holds known node next canon := by
  cases call with
  | acceptToMemoryPool ctx rules vstate tx fLimitFree fRejectInsaneFee ignoreFees =>
      cases went
      exact ⟨canon, holds.accept fits.1 fits.2 regular⟩
  | connectTip ctx vstate hash fAlreadyChecked =>
      cases went
      exact holds.connectTip fits honest names regular
  | disconnectTip ctx rules vstate => exact ⟨canon, holds.disconnectTip fits names regular went⟩
  | removeConflicts txLock =>
      cases went
      exact ⟨canon, holds.removes (removes_removeConflicts holds.indexed)⟩
  | clear =>
      cases went
      exact ⟨canon, holds.clear⟩

/-- **Every state of a run** whose steps are regular. -/
theorem exists_holds (begins : Begins known node start) {calls : List MempoolCall}
    (fits : ∀ call ∈ calls, call.Fits node known)
    (regular : Foundation.Run.AllSteps step (RegularStep node) (some start) calls) :
    ∀ reached ∈ Foundation.Run.states step (some start) calls, ∀ state, reached = some state →
      ∃ canon, Holds known node state canon := by
  refine Foundation.Run.invariant_states_of_steps ?_ ?_ (regular.and_forall fits)
  · rintro (_ | before) call ⟨sound, fit⟩ holds state running
    · cases running
    · obtain ⟨canon, earlier⟩ := holds before rfl
      exact earlier.call begins.honest begins.names fit (sound before rfl) running
  · rintro state running
    cases running
    exact begins.holds

namespace Holds

variable {canon : Uint256 → UtxoView}

theorem consistent (holds : Holds known node state canon) :
    state.pool.Consistent state.chain.coinsTip.coins := by
  have spends_iff : ∀ hash tx, state.pool.lookup hash = some tx → ∀ txin ∈ tx.vin,
      (txin.isZerocoinSpend = false ↔ tx.spendsInputs = true) := by
    intro hash tx here txin member
    rw [(holds.indexed.admitted here).uniform.kinds txin member, Bool.not_eq_false']
  refine ⟨fun hash tx here => (holds.indexed.held hash tx here).1, ?_, ?_, holds.indexed.total⟩
  · intro out spender
    rw [holds.indexed.marks]
    constructor
    · rintro ⟨tx, txin, here, spends, found, same⟩
      have member := List.mem_of_getElem? found
      exact ⟨tx, txin, here, found, (spends_iff _ tx here txin member).mpr spends, same⟩
    · rintro ⟨tx, txin, here, found, ordinary, same⟩
      have member := List.mem_of_getElem? found
      exact ⟨tx, txin, here, (spends_iff _ tx here txin member).mp ordinary, found, same⟩
  · intro hash tx here txin member ordinary
    have spends := (spends_iff hash tx here txin member).mp ordinary
    obtain ⟨-, out, found, spendable⟩ := (holds.indexed.admitted here).inputs spends txin member
    rcases holds.backed hash tx here spends txin member with pooled | offered
    · obtain ⟨parent, there⟩ := Option.isSome_iff_exists.mp pooled
      obtain ⟨same, admitted⟩ := holds.indexed.held _ _ there
      rw [← same, admitted.named] at found
      exact Or.inl ⟨parent, there, (List.getElem?_eq_some_iff.mp found).1⟩
    · exact Or.inr (holds.sourced.coinsTip.origins.isAvailable_of_unspent found spendable offered.1)

theorem check {ctx : ChainContext} (holds : Holds known node state canon)
    (same : node.SameRules ctx) : state.pool.check ctx state.chain = true := by
  obtain ⟨tip, best, height⟩ := holds.sourced.exists_tip
  have indexed := holds.indexed
  have backed := holds.backed
  rw [← same.params] at indexed
  rw [← same.supply, ← height] at backed
  exact check_eq_true indexed best backed holds.sourced.coinsTip.origins

end Holds

end MempoolNode

/-- **The memory pool stays consistent.** In every state of a run from the first block and
the empty pool, with any order of transactions, connected and disconnected blocks, locked
transactions and restarts, where nothing mixed comes in while zerocoin is not active and
no block overwrites coins, the pool fits its index and the coins of the chain, and no
assertion of `check` fails. -/
theorem consistent_of_run (known : Uint256 → CTransaction) (node : ChainContext)
    (start : MempoolNode) (calls : List MempoolCall)
    (begins : MempoolNode.Begins known node start)
    (fits : ∀ call ∈ calls, call.Fits node known)
    (regular : Foundation.Run.AllSteps MempoolNode.step (MempoolNode.RegularStep node) (some start)
      calls) :
    ∀ reached ∈ Foundation.Run.states MempoolNode.step (some start) calls,
      ∀ state, reached = some state → state.pool.Consistent state.chain.coinsTip.coins ∧
        ∀ ctx, node.SameRules ctx → state.pool.check ctx state.chain = true := by
  intro reached member state running
  obtain ⟨canon, holds⟩ := MempoolNode.exists_holds begins fits regular reached member state running
  exact ⟨holds.consistent, fun ctx same => holds.check same⟩

/-! ## A spend, its child and a block -/

/-- The script of a payment to a key. -/
def payToKey : List UInt8 := [0x76, 0xa9, 20] ++ List.replicate 20 7 ++ [0x88, 0xac]

/-- A zerocoin spend of one coin. -/
def spendTransaction (serial : UInt8) (hash : Uint256) : CTransaction where
  hash
  vin := [{ prevout := COutPoint.null, scriptSig := [0xc2, 0, 0, 0, serial, 7, 2], nSequence := 1 }]
  vout := [⟨COIN, payToKey, -10⟩]

/-- A transaction that spends the output of a spend. -/
def childTransaction : CTransaction where
  hash := 601
  vin := [{ prevout := ⟨600, 0⟩ }]
  vout := [⟨COIN, payToKey, -10⟩]

/-- The transactions of the examples by their hashes. -/
def knownTransactions (first second : CTransaction) (hash : Uint256) : CTransaction :=
  if hash = 600 then first
  else if hash = 601 then second
  else { regtestCoinBase 2 with
    hash
    vout := [⟨COIN, [0x51], -10⟩, ⟨COIN, [0x6a], -10⟩] }

/-- A transaction is offered to a node of the examples. -/
def MempoolCall.offer (ctx : ChainContext) (tx : CTransaction) : MempoolCall :=
  .acceptToMemoryPool ctx (MempoolContext.mainPool 0) {} tx false false false

/-- A spend and its child come in, a block is connected and taken back. -/
def spendRun : List MempoolCall :=
  [.offer (.regtest burningBlock) (spendTransaction 5 600),
    .offer (.regtest burningBlock) childTransaction,
    .connectTip (.regtest burningBlock) {} 101 false,
    .disconnectTip (.regtest burningBlock) (MempoolContext.mainPool 0) {}]

theorem namesTransactions_burning (first second : CTransaction) :
    (ChainContext.regtest burningBlock).NamesTransactions (knownTransactions first second) := by
  intro hash block disk tx member
  obtain ⟨nHeight, height, rfl⟩ := Option.map_eq_some_iff.mp disk
  obtain ⟨-, -, high⟩ := regtestHeight_eq_some height
  have only := List.mem_singleton.mp member
  subst only
  have value : (BitVec.ofNat 256 (1000 + nHeight)).toNat = 1000 + nHeight :=
    toNat_regtest (by omega)
  have different : ∀ other : Uint256, other.toNat < 1000 →
      BitVec.ofNat 256 (1000 + nHeight) ≠ other := by
    rintro other small rfl
    omega
  refine ⟨?_, different 0 (by decide)⟩
  unfold knownTransactions
  rw [if_neg (different 600 (by decide)), if_neg (different 601 (by decide))]

theorem begins_regtest (first second : CTransaction) :
    MempoolNode.Begins (knownTransactions first second) (.regtest burningBlock)
      ⟨.regtest burningBlock, {}⟩ := by
  have named : RegtestBlocks burningBlock := fun _ => ⟨rfl, rfl⟩
  refine ⟨linked_regtest named, rfl, rfl, ?_, honestDisk_regtest named,
    namesTransactions_burning first second, rfl⟩
  intro hash pindex index
  unfold ChainState.regtest at index
  dsimp only at index
  split at index
  · cases index
    rfl
  · obtain ⟨nHeight, -, rfl⟩ := Option.map_eq_some_iff.mp index
    rfl

theorem sameRules_regtest :
    (ChainContext.regtest burningBlock).SameRules (.regtest burningBlock) :=
  ⟨⟨rfl, rfl, rfl, rfl⟩, rfl⟩

theorem fits_spendRun : ∀ call ∈ spendRun, call.Fits (.regtest burningBlock)
    (knownTransactions (spendTransaction 5 600) childTransaction) := by
  simp only [spendRun, List.forall_mem_cons]
  exact ⟨⟨sameRules_regtest, rfl, by decide⟩, ⟨sameRules_regtest, rfl, by decide⟩,
    sameRules_regtest, sameRules_regtest, by simp⟩

theorem consistent_spendRun :
    ((spendRun.take 2).foldl MempoolNode.step (some ⟨.regtest burningBlock, {}⟩)).any
      (fun state => (state.pool.lookup 601).isSome) = true ∧
    ∀ reached ∈ Foundation.Run.states MempoolNode.step (some ⟨.regtest burningBlock, {}⟩) spendRun,
      ∀ state, reached = some state → state.pool.Consistent state.chain.coinsTip.coins ∧
        ∀ ctx, (ChainContext.regtest burningBlock).SameRules ctx →
          state.pool.check ctx state.chain = true := by
  refine ⟨by decide +kernel, ?_⟩
  refine consistent_of_run _ _ _ _ (begins_regtest (spendTransaction 5 600) childTransaction)
    fits_spendRun ?_
  refine ⟨?_, ?_, ?_, ?_, trivial⟩
  · intro state running
    exact Or.inr rfl
  · intro state running
    exact Or.inr rfl
  · rintro state running pindex block index disk -
    cases running
    have fresh : ∀ pindex ∈ (ChainState.regtest burningBlock).mapBlockIndex 101,
        ∀ block ∈ (ChainContext.regtest burningBlock).readBlockFromDisk 101,
        OverwritesNone pindex.nHeight block.vtx fun _ => CCoins.clear := by
      decide +kernel
    exact fresh pindex index block disk
  · intro state running
    refine Or.inr ?_
    intro hash block _ disk tx member
    obtain ⟨nHeight, height, rfl⟩ := Option.map_eq_some_iff.mp disk
    rw [List.mem_singleton.mp member]
    rfl

/-! ## A mixed transaction -/

/-- A zerocoin spend beside an input that is not there. -/
def mixedTransaction : CTransaction :=
  { spendTransaction 5 600 with
    vin := (spendTransaction 5 600).vin ++ [{ prevout := ⟨400, 0⟩ }] }

/-- It comes in, and `check` fails. -/
theorem not_consistent_mixed :
    ¬ ∀ (known : Uint256 → CTransaction) (node : ChainContext) (start : MempoolNode)
      (calls : List MempoolCall), MempoolNode.Begins known node start →
      (∀ call ∈ calls, call.Fits node known) →
      ∀ reached ∈ Foundation.Run.states MempoolNode.step (some start) calls,
        ∀ state, reached = some state → state.pool.Consistent state.chain.coinsTip.coins ∧
          ∀ ctx, node.SameRules ctx → state.pool.check ctx state.chain = true := by
  intro always
  have fits : ∀ call ∈ [MempoolCall.offer (.regtest burningBlock) mixedTransaction],
      call.Fits (.regtest burningBlock) (knownTransactions mixedTransaction childTransaction) := by
    intro call member
    rw [List.mem_singleton.mp member]
    exact ⟨sameRules_regtest, rfl, by decide⟩
  have passes := (always _ _ _ _ (begins_regtest _ _) fits _
    (Foundation.Run.foldl_mem_states _ _) _ rfl).2 _ sameRules_regtest
  revert passes
  decide +kernel

end GiantCore
