import GiantCore.Mempool.Consistency

/-! # Double spends in the memory pool

No two transactions of the pool spend the same outpoint: conflicts are found by the marks
of the inputs, whatever becomes of the coins. Zerocoin serials are compared with those of
mined transactions only, so that two transactions of the pool may spend the same serial,
and a block leaves the transactions of the pool that spend its serials.

Zerocoin spends have outpoints without a previous transaction, and so they share marks with
nothing as long as the coins have no entry under the hash zero.
-/

namespace GiantCore

open CoinsMap ChainState TxPool

/-- The serials that a transaction spends. -/
def CTransaction.serials (ctx : ValidationContext) (tx : CTransaction) : List CBigNum :=
  (tx.vin.filter CTxIn.isZerocoinSpend).filterMap ctx.spendSerial

/-- A transaction with ordinary inputs shows no serials. -/
theorem CTransaction.serials_eq_nil {tx : CTransaction} (uniform : tx.Uniform)
    (spends : tx.spendsInputs = true) (ctx : ValidationContext) : tx.serials ctx = [] := by
  have none : tx.vin.filter CTxIn.isZerocoinSpend = [] := by
    rw [List.filter_eq_nil_iff]
    intro txin member
    rw [uniform.kinds txin member, spends]
    exact Bool.false_ne_true
  rw [CTransaction.serials, none]
  rfl

namespace TxPool

variable (ctx : ValidationContext) (pool : TxPool)

/-- No two transactions of the pool spend the same serial. -/
def SerialsDiffer : Prop :=
  ∀ hash tx hash' tx', pool.lookup hash = some tx → pool.lookup hash' = some tx' → hash ≠ hash' →
    List.Disjoint (tx.serials ctx) (tx'.serials ctx)

/-- **No two transactions of the pool spend the same outpoint or the same serial.** -/
structure NoDoubleSpend : Prop where
  outpoints : ∀ hash tx hash' tx', pool.lookup hash = some tx → pool.lookup hash' = some tx' →
    hash ≠ hash' → ∀ txin ∈ tx.vin, ∀ txin' ∈ tx'.vin, txin.isZerocoinSpend = false →
      txin'.isZerocoinSpend = false → txin.prevout ≠ txin'.prevout
  serials : SerialsDiffer ctx pool

/-- **No transaction of the pool spends an outpoint or a serial** that one of a block
spends. -/
structure FreeOf (vtx : List CTransaction) : Prop where
  outpoints : ∀ hash tx, pool.lookup hash = some tx → ∀ txin ∈ tx.vin,
    txin.isZerocoinSpend = false → ∀ other ∈ vtx, ∀ txin' ∈ other.vin,
      txin'.isZerocoinSpend = false → txin.prevout ≠ txin'.prevout
  serials : ∀ hash tx, pool.lookup hash = some tx → ∀ other ∈ vtx,
    List.Disjoint (tx.serials ctx) (other.serials ctx)

/-- The serials of a block are spent by no transaction of the pool but those of the
block. -/
def SerialsOwn (vtx : List CTransaction) : Prop :=
  ∀ hash tx, pool.lookup hash = some tx → hash ∉ vtx.map CTransaction.hash → ∀ other ∈ vtx,
    List.Disjoint (tx.serials ctx) (other.serials ctx)

variable {ctx pool}

/-- Serials that differ in a pool differ in a part of it. -/
theorem SerialsDiffer.within {after : TxPool} (differ : SerialsDiffer ctx pool)
    (within : Within pool after) : SerialsDiffer ctx after :=
  fun hash tx hash' tx' here there =>
    differ hash tx hash' tx' (within hash tx here) (within hash' tx' there)

/-- The marks of the inputs find the conflicts. -/
theorem Marked.noDoubleSpend (marked : Marked pool) (differ : SerialsDiffer ctx pool) :
    NoDoubleSpend ctx pool := by
  refine ⟨?_, differ⟩
  intro hash tx hash' tx' here there different txin member txin' member' ordinary ordinary' same
  rw [(marked.uniform here).kinds txin member, Bool.not_eq_false'] at ordinary
  rw [(marked.uniform there).kinds txin' member', Bool.not_eq_false'] at ordinary'
  exact different (marked.hash_unique here there ordinary ordinary' member member' same)

/-- **What a block leaves is free of it exactly if the serials of the block are its own.** -/
theorem freeOf_removeForBlock_iff (marked : Marked pool) (vtx : List CTransaction) :
    FreeOf ctx (pool.removeForBlock vtx) vtx ↔ SerialsOwn ctx pool vtx := by
  have cleared := clearedByBlock_removeForBlock marked vtx
  constructor
  · intro free hash tx here outside other member
    cases spends : tx.spendsInputs with
    | true =>
        rw [CTransaction.serials_eq_nil (marked.uniform here) spends]
        exact List.disjoint_nil_left _
    | false =>
        -- the block does not take a zerocoin spend out that is not its own
        have left := cleared.spends hash tx here spends outside
        exact free.serials hash tx left other member
  · intro own
    refine ⟨?_, ?_⟩
    · intro hash tx here txin member ordinary other inside txin' member' ordinary' same
      rw [(cleared.marked.uniform here).kinds txin member, Bool.not_eq_false'] at ordinary
      apply cleared.free hash tx here ordinary txin member other inside
      rw [same]
      exact List.mem_map_of_mem member'
    · intro hash tx here
      apply own hash tx (cleared.within hash tx here)
      intro inside
      obtain ⟨other, member, rfl⟩ := List.mem_map.mp inside
      rw [cleared.gone other member] at here
      cases here

end TxPool

/-! ## The hash zero -/

/-- No transaction touches the coins of the hash zero. -/
theorem CoinsMap.updateCoins_zero {tx : CTransaction} {nHeight : Int} {view after : CoinsMap}
    {undo : CTxUndo} (updates : updateCoins tx nHeight view = some (after, undo))
    (nonzero : tx.hash ≠ 0) (pruned : (view 0).isPruned = true) :
    (after 0).isPruned = true ∧
      (tx.spendsInputs = true → ∀ txin ∈ tx.vin, txin.prevout.hash ≠ 0) := by
  simp only [updateCoins, Option.map_eq_some_iff, Prod.exists, Prod.mk.injEq] at updates
  obtain ⟨marked, record, marks, rfl, rfl⟩ := updates
  rw [addOutputs, modifyCoins_of_ne _ _ (Ne.symm nonzero)]
  rcases markSpent_cases marks with ⟨-, done⟩ | ⟨idle, rfl⟩
  · rw [spendInputs_of_isPruned pruned done]
    refine ⟨pruned, ?_⟩
    intro spends txin member zero
    have unspent := unspent_of_spendInputs done txin member
    rw [zero] at unspent
    rw [unspent.isPruned] at pruned
    cases pruned
  · refine ⟨pruned, ?_⟩
    intro spends
    rw [idle] at spends
    cases spends

/-- No block touches the coins of the hash zero. -/
theorem ConnectContext.connectTxs_zero {ctx : ConnectContext} {nHeight : Int}
    {done txs : List CTransaction} {state last : ConnectState} {undos : List CTxUndo}
    (connects : ctx.connectTxs nHeight done txs state = some (undos, last))
    (nonzero : ∀ tx ∈ txs, tx.hash ≠ 0) (pruned : (state.view 0).isPruned = true) :
    (last.view 0).isPruned = true ∧ ∀ tx ∈ txs, tx.spendsInputs = true →
      ∀ txin ∈ tx.vin, txin.prevout.hash ≠ 0 := by
  induction txs generalizing done state undos with
  | nil =>
      cases connects
      exact ⟨pruned, by simp⟩
  | cons tx rest ih =>
      obtain ⟨undo, next, others, first, remaining, rfl⟩ := ctx.connectTxs_cons connects
      rw [List.forall_mem_cons] at nonzero ⊢
      obtain ⟨between, inputs⟩ :=
        updateCoins_zero (ctx.updateCoins_of_connectTx first) nonzero.1 pruned
      obtain ⟨after, later⟩ := ih remaining nonzero.2 between
      exact ⟨after, inputs, later⟩

/-- Undoing other inputs leaves the coins of a transaction. -/
theorem ConnectContext.restoreInputs_of_ne {records : List (CTxIn × CTxInUndo)}
    {state : DisconnectState} {txid : Uint256}
    (others : ∀ record ∈ records, record.1.prevout.hash ≠ txid) :
    (restoreInputs records state).view txid = state.view txid := by
  induction records with
  | nil => rfl
  | cons record rest ih =>
      obtain ⟨txin, undo⟩ := record
      rw [List.forall_mem_cons] at others
      have later := ih others.2
      rw [← later]
      exact modifyCoins_of_ne _ _ (Ne.symm others.1)

namespace ChainState

variable {ctx : ChainContext} {state : ChainState} {vstate : CValidationState} {nHeight : Int}

/-- Undoing a transaction leaves the hash zero without coins. -/
theorem disconnectRound_zero {tx : CTransaction} {txundo : Option CTxUndo}
    {current after : DisconnectState}
    (went : disconnectRound ctx state vstate nHeight tx txundo current = (after, .ok ()))
    (nonzero : tx.hash ≠ 0)
    (inputs : tx.spendsInputs = true → ∀ txin ∈ tx.vin, txin.prevout.hash ≠ 0) :
    after.view 0 = current.view 0 := by
  obtain ⟨db, restores⟩ := disconnectRound_eq_ok went
  have removed : (ConnectContext.removeOutputs nHeight tx
      { current with zerocoinDB := db }).view 0 = current.view 0 :=
    modifyCoins_of_ne _ _ (Ne.symm nonzero)
  unfold restoreTx at restores
  split at restores
  · rename_i spends
    split at restores
    · cases restores
    · split at restores
      · cases restores
      · cases restores
        rw [ConnectContext.restoreInputs_of_ne, removed]
        intro record member
        exact inputs spends record.1 (List.of_mem_zip member).1
  · cases restores
    exact removed

/-- Undoing a block leaves the hash zero without coins. -/
theorem disconnectRounds_zero {txs : List (CTransaction × Option CTxUndo)}
    {current after : DisconnectState}
    (went : disconnectRounds ctx state vstate nHeight txs current = (after, .ok ()))
    (nonzero : ∀ record ∈ txs, record.1.hash ≠ 0)
    (inputs : ∀ record ∈ txs, record.1.spendsInputs = true →
      ∀ txin ∈ record.1.vin, txin.prevout.hash ≠ 0) : after.view 0 = current.view 0 := by
  induction txs generalizing after with
  | nil =>
      cases went
      rfl
  | cons record rest ih =>
      obtain ⟨tx, txundo⟩ := record
      rw [List.forall_mem_cons] at nonzero inputs
      rw [disconnectRounds] at went
      rcases middle : disconnectRounds ctx state vstate nHeight rest current with
        ⟨between, failure | _⟩
      · rw [middle] at went
        cases went
      · rw [middle] at went
        rw [disconnectRound_zero went nonzero.1 inputs.1, ih middle nonzero.2 inputs.2]

end ChainState

/-- **No coins are those of the hash zero**, and no block that was connected spends such
coins. -/
structure ChainState.NoneAtZero (node : ChainContext) (chain : ChainState) : Prop where
  linked : Linked node.hashGenesisBlock chain
  pruned : (chain.coinsTip.coins 0).isPruned = true
  inputs : ∀ hash block vtxundo, chain.undoAt hash = some vtxundo →
    node.readBlockFromDisk hash = some block → ∀ tx ∈ block.vtx, tx.spendsInputs = true →
      ∀ txin ∈ tx.vin, txin.prevout.hash ≠ 0

namespace ChainState.NoneAtZero

variable {known : Uint256 → CTransaction} {node ctx : ChainContext} {chain after : ChainState}
  {vstate : CValidationState} {hash : Uint256} {pindex : ChainIndex} {block : CBlock}

/-- The same chain has nothing at the hash zero. -/
theorem sameChain (zero : NoneAtZero node chain) (same : SameChain chain after) :
    NoneAtZero node after := by
  refine ⟨zero.linked.sameChain same, ?_, ?_⟩
  · rw [same.coinsTip]
    exact zero.pruned
  · rw [same.indexes.undoAt]
    exact zero.inputs

/-- A block that connects leaves nothing at the hash zero. -/
theorem connects {effects : BlockEffects} {booked : ChainState} {bookedIndex : ChainIndex}
    (zero : NoneAtZero node chain) (same : node.SameNode ctx)
    (names : node.NamesTransactions known)
    (connects : ConnectsTip ctx chain vstate hash after pindex block effects booked bookedIndex) :
    NoneAtZero node after := by
  have disk : node.readBlockFromDisk hash = some block := same.readBlockFromDisk ▸ connects.disk
  have nonzero : ∀ tx ∈ block.vtx, tx.hash ≠ 0 :=
    fun tx member => (names hash block disk tx member).2
  obtain ⟨fScriptChecks, records, rounds, -⟩ := connectTransactions_eq_ok connects.transactions
  obtain ⟨pruned, inputs⟩ :=
    ConnectContext.connectTxs_zero (connectTxs_of_connectRounds rounds) nonzero zero.pruned
  refine ⟨connects.linked zero.linked, ?_, ?_⟩
  · rw [connects.coinsTip]
    exact pruned
  · intro other found vtxundo undo disk'
    by_cases equal : other = hash
    · subst equal
      rw [disk] at disk'
      cases disk'
      exact inputs
    · rw [CoinsRecorded.undoAt_connects_of_ne connects equal] at undo
      exact zero.inputs other found vtxundo undo disk'

/-- A block that disconnects leaves nothing at the hash zero. -/
theorem disconnects {hashPrev : Uint256} {vtxundo : List CTxUndo} {current : DisconnectState}
    (zero : NoneAtZero node chain) (same : node.SameNode ctx)
    (names : node.NamesTransactions known)
    (disconnects : DisconnectsTip ctx chain vstate after hash hashPrev pindex block vtxundo
      current) : NoneAtZero node after := by
  have disk : node.readBlockFromDisk hash = some block :=
    same.readBlockFromDisk ▸ disconnects.disk
  have undo : chain.undoAt hash = some vtxundo := by
    rw [undoAt, disconnects.index, Option.bind_some, disconnects.undoable]
  have undos : after.undoAt = chain.undoAt := by
    funext other
    rw [undoAt, undoAt, disconnects.mapBlockIndex]
  refine ⟨disconnects.linked zero.linked, ?_, ?_⟩
  · rw [disconnects.coinsTip]
    show (current.view 0).isPruned = true
    rw [disconnectRounds_zero disconnects.rounds]
    · exact zero.pruned
    · intro record member
      exact (names hash block disk record.1 (List.of_mem_zip member).1).2
    · intro record member
      exact zero.inputs hash block vtxundo undo disk record.1 (List.of_mem_zip member).1
  · rw [undos]
    exact zero.inputs

end ChainState.NoneAtZero

/-! ## What comes in -/

namespace TxPool

variable {known : Uint256 → CTransaction} {node ctx : ChainContext} {chain : ChainState}
  {rules : MempoolContext} {pool after : TxPool}

/-- No transaction of the pool has the hash zero. -/
theorem Marked.lookup_zero (marked : Marked pool) : pool.lookup 0 = none := by
  by_contra present
  obtain ⟨tx, here⟩ := Option.ne_none_iff_exists'.mp present
  exact (marked.held 0 tx here).2.1 rfl

/-- A transaction that is accepted is marked, unless it is mixed. -/
theorem Marked.accept {state : CValidationState} {fLimitFree fRejectInsaneFee ignoreFees : Bool}
    {tx : CTransaction} (marked : Marked pool)
    (pruned : (chain.coinsTip.coins 0).isPruned = true) (nonzero : tx.hash ≠ 0)
    (unmixed : ctx.poolZerocoinActive chain = true ∨ tx.mixed = false)
    (accepted : pool.accept ctx rules chain state fLimitFree fRejectInsaneFee ignoreFees tx =
      some after) : Marked after := by
  obtain ⟨passes, rfl⟩ := accept_eq_some accepted
  have plain := unmixed.elim passes.unmixed id
  apply marked.addUnchecked passes.notCoinBase _ nonzero passes.distinct passes.absent passes.free
  refine ⟨CTransaction.kinds_of_unmixed passes.notCoinBase ?_, ?_⟩
  · intro zerocoin
    rw [CTransaction.mixed, zerocoin, Bool.true_and, Bool.not_eq_false'] at plain
    exact List.all_eq_true.mp plain
  · intro spends txin member zero
    have available := passes.available spends member
    rw [zero, view_of_none marked.lookup_zero] at available
    obtain ⟨out, found, full, -⟩ := CCoins.isAvailable_iff.mp available
    have alive := CCoins.Unspent.isPruned ⟨out, found, full⟩
    rw [alive] at pruned
    cases pruned

/-- An accepted transaction is in the pool, and so is what was there. -/
theorem lookup_accept {state : CValidationState} {fLimitFree fRejectInsaneFee ignoreFees : Bool}
    {tx : CTransaction}
    (accepted : pool.accept ctx rules chain state fLimitFree fRejectInsaneFee ignoreFees tx =
      some after) (hash : Uint256) :
    after.lookup hash = if hash = tx.hash then some tx else pool.lookup hash := by
  obtain ⟨-, rfl⟩ := accept_eq_some accepted
  exact lookup_addUnchecked _ hash

/-- **The transactions of a block go back**: what is in the pool then was there before or
is of the block. -/
theorem Marked.foldl_resurrect {txs : List CTransaction} (marked : Marked pool)
    (pruned : (chain.coinsTip.coins 0).isPruned = true) (nonzero : ∀ tx ∈ txs, tx.hash ≠ 0)
    (unmixed : ctx.poolZerocoinActive chain = true ∨ ∀ tx ∈ txs, tx.mixed = false) :
    Marked (txs.foldl (resurrect ctx rules chain) pool) ∧
      ∀ hash tx, (txs.foldl (resurrect ctx rules chain) pool).lookup hash = some tx →
        pool.lookup hash = some tx ∨ tx ∈ txs := by
  induction txs generalizing pool with
  | nil => exact ⟨marked, fun _ _ here => Or.inl here⟩
  | cons tx rest ih =>
      rw [List.forall_mem_cons] at nonzero
      have next : Marked (resurrect ctx rules chain pool tx) ∧
          ∀ hash other, (resurrect ctx rules chain pool tx).lookup hash = some other →
            pool.lookup hash = some other ∨ other = tx := by
        have removed : Within pool (pool.remove tx true) := within_removeQueue
        unfold resurrect
        split
        · exact ⟨marked.removeQueue, fun hash other here => Or.inl (removed hash other here)⟩
        · cases accepted : pool.accept ctx rules chain {} false false false tx with
          | none =>
              exact ⟨marked.removeQueue, fun hash other here => Or.inl (removed hash other here)⟩
          | some added =>
              have plain := unmixed.imp_right fun all => all tx List.mem_cons_self
              refine ⟨marked.accept pruned nonzero.1 plain accepted, ?_⟩
              intro hash other here
              rw [Option.getD_some, lookup_accept accepted] at here
              split at here
              · cases here
                exact Or.inr rfl
              · exact Or.inl here
      have others : ctx.poolZerocoinActive chain = true ∨ ∀ tx ∈ rest, tx.mixed = false :=
        unmixed.imp_right fun all other member => all other (List.mem_cons_of_mem _ member)
      obtain ⟨last, origin⟩ := ih next.1 nonzero.2 others
      refine ⟨last, ?_⟩
      intro hash other here
      rcases origin hash other here with earlier | later
      · rcases next.2 hash other earlier with before | rfl
        · exact Or.inl before
        · exact Or.inr List.mem_cons_self
      · exact Or.inr (List.mem_cons_of_mem _ later)

/-- Removing entries keeps the marks and leaves a part of the pool. -/
theorem Marked.foldl_remove (marked : Marked pool) (entries : List CTxMemPoolEntry) :
    Marked (entries.foldl (fun pool entry => pool.remove entry.tx true) pool) ∧
      Within pool (entries.foldl (fun pool entry => pool.remove entry.tx true) pool) := by
  induction entries generalizing pool with
  | nil => exact ⟨marked, .refl pool⟩
  | cons entry rest ih =>
      have first : Within pool (pool.remove entry.tx true) := within_removeQueue
      have next : Marked (pool.remove entry.tx true) := marked.removeQueue
      obtain ⟨last, later⟩ := ih next
      exact ⟨last, first.trans later⟩

/-- Removing spends of coinbases keeps the marks. -/
theorem Marked.removeCoinbaseSpends (marked : Marked pool) {supply : SupplyParams}
    {coins : CoinsMap} {nMemPoolHeight : Int}
    (removed : pool.removeCoinbaseSpends supply coins nMemPoolHeight = some after) :
    Marked after ∧ Within pool after := by
  unfold TxPool.removeCoinbaseSpends at removed
  dsimp only at removed
  split at removed
  · cases removed
  · cases removed
    exact marked.foldl_remove _

end TxPool

/-! ## Runs -/

/-- What has to be so in the state before a call: nothing mixed comes in while zerocoin is
not active, and no serial comes in that another transaction spends. -/
def MempoolCall.NewSerials (node : ChainContext) (state : MempoolNode) : MempoolCall → Prop
  | .acceptToMemoryPool ctx _ _ tx _ _ _ =>
      (ctx.poolZerocoinActive state.chain = true ∨ tx.mixed = false) ∧
        ∀ hash other, state.pool.lookup hash = some other → hash ≠ tx.hash →
          List.Disjoint (tx.serials node.validation) (other.serials node.validation)
  | .connectTip _ _ _ _ => True
  | .disconnectTip ctx _ _ => ∀ hash block, state.chain.chainActive.getLast? = some hash →
      node.readBlockFromDisk hash = some block →
        (ctx.poolZerocoinActive state.chain = true ∨ ∀ tx ∈ block.vtx, tx.mixed = false) ∧
        ∀ tx ∈ block.vtx, ∀ other,
          (other ∈ block.vtx ∨ state.pool.lookup other.hash = some other) → other.hash ≠ tx.hash →
          List.Disjoint (tx.serials node.validation) (other.serials node.validation)
  | .removeConflicts _ => True
  | .clear => True

/-- The condition on a step; a node that has stopped does nothing. -/
def MempoolNode.NewSerialsStep (node : ChainContext) (state : Option MempoolNode)
    (call : MempoolCall) : Prop :=
  ∀ running, state = some running → call.NewSerials node running

namespace MempoolNode

/-- **What holds in every state**: the marks find every conflict, and serials differ. -/
structure Separate (node : ChainContext) (state : MempoolNode) : Prop where
  zero : NoneAtZero node state.chain
  marked : Marked state.pool
  serials : SerialsDiffer node.validation state.pool

variable {known : Uint256 → CTransaction} {node ctx : ChainContext} {start state : MempoolNode}

/-- At the beginning the marks find every conflict, and serials differ. -/
theorem Begins.separate (begins : Begins known node start) : Separate node start := by
  obtain ⟨canon, holds⟩ := begins.holds
  refine ⟨⟨begins.linked, ?_, ?_⟩, holds.indexed.marked, ?_⟩
  · rw [begins.noCoins]
    rfl
  · intro hash block vtxundo undo
    obtain ⟨pindex, index, found⟩ := Option.bind_eq_some_iff.mp undo
    rw [begins.unwritten hash pindex index] at found
    cases found
  · intro hash tx hash' tx' here
    rw [begins.empty] at here
    cases here

namespace Separate

theorem within (separate : Separate node state) {pool : TxPool} (marked : Marked pool)
    (within : Within state.pool pool) : Separate node { state with pool } :=
  ⟨separate.zero, marked, separate.serials.within within⟩

/-- A transaction is offered. -/
theorem accept (separate : Separate node state) {rules : MempoolContext} {vstate : CValidationState}
    {fLimitFree fRejectInsaneFee ignoreFees : Bool} {tx : CTransaction} (nonzero : tx.hash ≠ 0)
    (unmixed : ctx.poolZerocoinActive state.chain = true ∨ tx.mixed = false)
    (fresh : ∀ hash other, state.pool.lookup hash = some other → hash ≠ tx.hash →
      List.Disjoint (tx.serials node.validation) (other.serials node.validation)) :
    Separate node { state with pool := (state.pool.accept ctx rules state.chain vstate
      fLimitFree fRejectInsaneFee ignoreFees tx).getD state.pool } := by
  cases accepted : state.pool.accept ctx rules state.chain vstate fLimitFree fRejectInsaneFee
      ignoreFees tx with
  | none => exact separate
  | some after =>
      refine ⟨separate.zero, separate.marked.accept separate.zero.pruned nonzero unmixed accepted,
        ?_⟩
      intro hash tx' hash' tx'' here there different
      rw [Option.getD_some, lookup_accept accepted] at here there
      split at here
      · rename_i same
        cases here
        rw [if_neg fun equal => different (same.trans equal.symm)] at there
        exact fresh hash' tx'' there fun equal => different (same.trans equal.symm)
      · rename_i other
        split at there
        · cases there
          exact (fresh hash tx' here other).symm
        · exact separate.serials hash tx' hash' tx'' here there different

/-- A block is taken back. -/
theorem disconnectTip (separate : Separate node state) (same : node.SameRules ctx)
    (names : node.NamesTransactions known) {rules : MempoolContext} {vstate : CValidationState}
    (fresh : MempoolCall.NewSerials node state (.disconnectTip ctx rules vstate))
    {next : MempoolNode} (went : state.disconnectTip ctx rules vstate = some next) :
    Separate node next := by
  have sameNode := same.withPool state.pool
  rcases disconnectTip_cases went with ⟨chain, sameChain, rfl⟩ |
    ⟨after, hash, hashPrev, pindex, block, vtxundo, current, pool, disconnects, removed, rfl⟩
  · exact ⟨separate.zero.sameChain sameChain, separate.marked, separate.serials⟩
  · have disk : node.readBlockFromDisk hash = some block :=
      sameNode.readBlockFromDisk ▸ disconnects.disk
    have zero := separate.zero.disconnects sameNode names disconnects
    obtain ⟨unmixed, differ⟩ := fresh hash block disconnects.tip disk
    rw [← poolZerocoinActive_of_disconnects disconnects] at unmixed
    obtain ⟨marked, origin⟩ := @Marked.foldl_resurrect ctx
      { after with chainActive := state.chain.chainActive } rules state.pool block.vtx
      separate.marked zero.pruned (fun tx member => (names hash block disk tx member).2) unmixed
    obtain ⟨last, within⟩ := marked.removeCoinbaseSpends removed
    refine ⟨zero, last, SerialsDiffer.within ?_ within⟩
    intro first tx second tx' here there different
    have hashes := (marked.held first tx here).1
    have hashes' := (marked.held second tx' there).1
    rcases origin first tx here with before | member
    · rcases origin second tx' there with before' | member'
      · exact separate.serials first tx second tx' before before' different
      · apply List.Disjoint.symm
        apply differ tx' member' tx (Or.inr (hashes ▸ before))
        rw [hashes, hashes']
        exact different
    · apply differ tx member tx' ((origin second tx' there).symm.imp_right (hashes' ▸ ·))
      rw [hashes, hashes']
      exact Ne.symm different

/-- **One call.** -/
theorem call (separate : Separate node state) (honest : node.HonestDisk)
    (names : node.NamesTransactions known) {call : MempoolCall} (fits : call.Fits node known)
    (fresh : call.NewSerials node state) {next : MempoolNode}
    (went : state.call call = some next) : Separate node next := by
  cases call with
  | acceptToMemoryPool ctx rules vstate tx fLimitFree fRejectInsaneFee ignoreFees =>
      cases went
      exact separate.accept fits.2.2 fresh.1 fresh.2
  | connectTip ctx vstate hash fAlreadyChecked =>
      cases went
      rcases connectTip_cases separate.zero.linked fits honest hash fAlreadyChecked with
        ⟨chain, sameChain, went⟩ | ⟨after, pindex, block, effects, booked, _, connects, went⟩
      · rw [went]
        exact ⟨separate.zero.sameChain sameChain, separate.marked, separate.serials⟩
      · rw [went]
        have cleared := clearedByBlock_removeForBlock separate.marked block.vtx
        exact ⟨separate.zero.connects (fits.withPool state.pool) names connects, cleared.marked,
          separate.serials.within cleared.within⟩
  | disconnectTip ctx rules vstate => exact separate.disconnectTip fits names fresh went
  | removeConflicts txLock =>
      cases went
      have cleared : KeepsSpends state.pool (state.pool.removeConflicts txLock) :=
        (keepsSpends_removeConflicts separate.marked).1
      exact separate.within cleared.marked cleared.within
  | clear =>
      cases went
      have indexed : Indexed known node.params state.pool.clear := indexed_clear state.pool
      apply separate.within indexed.marked
      intro hash tx here
      cases here

end Separate

end MempoolNode

/-- **The memory pool offers no double spend.** In every state of a run from the first block
and the empty pool, where nothing mixed comes in while zerocoin is not active and no serial
comes in that another transaction of the pool, or of the same block, spends, no two
transactions of the pool spend the same outpoint or serial. A block leaves none that
spends one of its own exactly if no other transaction of the pool spends one of its
serials. -/
theorem noDoubleSpend_of_run (known : Uint256 → CTransaction) (node : ChainContext)
    (start : MempoolNode) (calls : List MempoolCall)
    (begins : MempoolNode.Begins known node start)
    (fits : ∀ call ∈ calls, call.Fits node known)
    (fresh : Foundation.Run.AllSteps MempoolNode.step (MempoolNode.NewSerialsStep node)
      (some start) calls) :
    ∀ reached ∈ Foundation.Run.states MempoolNode.step (some start) calls,
      ∀ state, reached = some state → state.pool.NoDoubleSpend node.validation ∧
        ∀ vtx, FreeOf node.validation (state.pool.removeForBlock vtx) vtx ↔
          state.pool.SerialsOwn node.validation vtx := by
  have separate : ∀ reached ∈ Foundation.Run.states MempoolNode.step (some start) calls,
      ∀ state, reached = some state → MempoolNode.Separate node state := by
    refine Foundation.Run.invariant_states_of_steps ?_ ?_ (fresh.and_forall fits)
    · rintro (_ | before) call ⟨sound, fit⟩ holds state running
      · cases running
      · exact (holds before rfl).call begins.honest begins.names fit (sound before rfl) running
    · rintro state running
      cases running
      exact begins.separate
  intro reached member state running
  have holds := separate reached member state running
  exact ⟨holds.marked.noDoubleSpend holds.serials, freeOf_removeForBlock_iff holds.marked⟩

/-- A spend and its child come in, a block is connected and taken back. -/
theorem noDoubleSpend_spendRun :
    ((spendRun.take 2).foldl MempoolNode.step (some ⟨.regtest burningBlock, {}⟩)).any
      (fun state => (state.pool.lookup 601).isSome) = true ∧
    ∀ reached ∈ Foundation.Run.states MempoolNode.step (some ⟨.regtest burningBlock, {}⟩) spendRun,
      ∀ state, reached = some state →
        state.pool.NoDoubleSpend (ChainContext.regtest burningBlock).validation ∧
        ∀ vtx, FreeOf (ChainContext.regtest burningBlock).validation
          (state.pool.removeForBlock vtx) vtx ↔
            state.pool.SerialsOwn (ChainContext.regtest burningBlock).validation vtx := by
  refine ⟨by decide +kernel, ?_⟩
  refine noDoubleSpend_of_run _ _ _ _
    (begins_regtest (spendTransaction 5 600) childTransaction) fits_spendRun ?_
  refine ⟨?_, ?_, fun _ _ => trivial, ?_, trivial⟩
  · intro state running
    cases running
    refine ⟨Or.inr rfl, ?_⟩
    intro hash other here
    cases here
  · intro state running
    exact ⟨Or.inr rfl, fun _ _ _ _ => List.disjoint_nil_left _⟩
  · intro state running hash block _ disk
    obtain ⟨nHeight, height, rfl⟩ := Option.map_eq_some_iff.mp disk
    refine ⟨Or.inr ?_, ?_⟩
    · intro tx member
      rw [List.mem_singleton.mp member]
      rfl
    · intro tx member other _ _
      rw [List.mem_singleton.mp member]
      exact List.disjoint_nil_left _

/-- Two spends of one serial come in. -/
theorem not_noDoubleSpend_twins :
    ¬ ∀ (known : Uint256 → CTransaction) (node : ChainContext) (start : MempoolNode)
      (calls : List MempoolCall), MempoolNode.Begins known node start →
      (∀ call ∈ calls, call.Fits node known) →
      ∀ reached ∈ Foundation.Run.states MempoolNode.step (some start) calls,
        ∀ state, reached = some state → state.pool.NoDoubleSpend node.validation ∧
          ∀ vtx, FreeOf node.validation (state.pool.removeForBlock vtx) vtx := by
  intro always
  have fits : ∀ call ∈ [MempoolCall.offer (.regtest burningBlock) (spendTransaction 5 600),
      .offer (.regtest burningBlock) (spendTransaction 5 601)], call.Fits (.regtest burningBlock)
        (knownTransactions (spendTransaction 5 600) (spendTransaction 5 601)) := by
    simp only [List.forall_mem_cons]
    exact ⟨⟨sameRules_regtest, rfl, by decide⟩, ⟨sameRules_regtest, rfl, by decide⟩, by simp⟩
  have differ := (always _ _ _ _ (begins_regtest _ _) fits _
    (Foundation.Run.foldl_mem_states _ _) _ rfl).1.serials
  have first := differ 600 (spendTransaction 5 600) 601 (spendTransaction 5 601)
    (by decide +kernel) (by decide +kernel) (by decide)
  have both : (5 : CBigNum) ∈ (spendTransaction 5 600).serials
      (ChainContext.regtest burningBlock).validation := by decide +kernel
  exact first both both

end GiantCore
