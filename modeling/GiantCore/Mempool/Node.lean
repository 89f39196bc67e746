import GiantCore.Mempool.Accept

/-! # The memory pool of a node

The pool beside the chain, and everything that is done to it: transactions are accepted,
blocks are connected and disconnected, conflicts with a locked transaction are removed,
and the pool is cleared. Each of these keeps every input of the pool backed by an output of
the pool or by a mature coin of the chain.

While a block is taken back, its transactions go back to the pool one by one. Until a
transaction has had its turn, its children in the pool may lack it.
-/

namespace GiantCore

open CoinsMap ChainState TxPool

/-- A node: its chain and its memory pool. -/
structure MempoolNode where
  chain : ChainState
  pool : TxPool

/-- A transaction of a disconnected block goes back to the pool, or is removed with its
descendants. -/
def TxPool.resurrect (ctx : ChainContext) (rules : MempoolContext) (chain : ChainState)
    (pool : TxPool) (tx : CTransaction) : TxPool :=
  if tx.isCoinBase || tx.isCoinStake then pool.remove tx true
  else (pool.accept ctx rules chain {} false false false tx).getD (pool.remove tx true)

namespace MempoolNode

variable (node : MempoolNode)

/-- `ConnectTip` with the pool. -/
def connectTip (ctx : ChainContext) (vstate : CValidationState) (hash : Uint256)
    (fAlreadyChecked : Bool) : MempoolNode :=
  match node.chain.connectTip (ctx.withPool node.pool) vstate hash fAlreadyChecked with
  | (chain, .error _) => { node with chain }
  | (chain, .ok _) => ⟨chain, (ctx.readBlockFromDisk hash).elim node.pool fun block =>
      node.pool.removeForBlock block.vtx⟩

/-- `DisconnectTip` with the pool, or nothing where an assertion fails. The active chain
is updated last. -/
def disconnectTip (ctx : ChainContext) (rules : MempoolContext) (vstate : CValidationState) :
    Option MempoolNode :=
  match node.chain.disconnectTip (ctx.withPool node.pool) vstate with
  | (chain, .error _) => some { node with chain }
  | (chain, .ok _) => do
      let hash ← node.chain.chainActive.getLast?
      let block ← ctx.readBlockFromDisk hash
      let pindexDelete ← node.chain.mapBlockIndex hash
      let between := { chain with chainActive := node.chain.chainActive }
      let pool := block.vtx.foldl (resurrect ctx rules between) node.pool
      let pool ← pool.removeCoinbaseSpends ctx.supply chain.coinsTip.coins pindexDelete.nHeight
      return ⟨chain, pool⟩

end MempoolNode

/-- What is done to the pool, with what it reads. -/
inductive MempoolCall where
  | acceptToMemoryPool (ctx : ChainContext) (rules : MempoolContext) (state : CValidationState)
      (tx : CTransaction) (fLimitFree fRejectInsaneFee ignoreFees : Bool)
  | connectTip (ctx : ChainContext) (vstate : CValidationState) (hash : Uint256)
      (fAlreadyChecked : Bool)
  | disconnectTip (ctx : ChainContext) (rules : MempoolContext) (vstate : CValidationState)
  /-- A transaction is locked (`DisconnectBlockAndInputs`). -/
  | removeConflicts (txLock : CTransaction)
  /-- The pool is emptied, or the node starts again. -/
  | clear

/-- The node after a call, unless an assertion fails. -/
def MempoolNode.call (node : MempoolNode) : MempoolCall → Option MempoolNode
  | .acceptToMemoryPool ctx rules state tx fLimitFree fRejectInsaneFee ignoreFees =>
      some { node with pool := (node.pool.accept ctx rules node.chain state fLimitFree
        fRejectInsaneFee ignoreFees tx).getD node.pool }
  | .connectTip ctx vstate hash fAlreadyChecked =>
      some (node.connectTip ctx vstate hash fAlreadyChecked)
  | .disconnectTip ctx rules vstate => node.disconnectTip ctx rules vstate
  | .removeConflicts txLock => some { node with pool := node.pool.removeConflicts txLock }
  | .clear => some { node with pool := node.pool.clear }

/-- A node that has stopped stays so. -/
def MempoolNode.step (state : Option MempoolNode) (call : MempoolCall) : Option MempoolNode :=
  state.bind fun node => node.call call

/-- The context of a call is that of the node. -/
structure ChainContext.SameRules (node ctx : ChainContext) : Prop extends node.SameNode ctx where
  supply : ctx.supply = node.supply

theorem ChainContext.SameRules.withPool {node ctx : ChainContext} (same : node.SameRules ctx)
    (pool : TxPool) : node.SameNode (ctx.withPool pool) :=
  ⟨same.params, same.hashGenesisBlock, same.readBlockFromDisk, same.hashBignum⟩

/-- The call is one of this node, and a transaction that is offered has the hash that
stands for it. -/
def MempoolCall.Fits (node : ChainContext) (known : Uint256 → CTransaction) : MempoolCall → Prop
  | .acceptToMemoryPool ctx _ _ tx _ _ _ =>
      node.SameRules ctx ∧ known tx.hash = tx ∧ tx.hash ≠ 0
  | .connectTip ctx _ _ _ => node.SameRules ctx
  | .disconnectTip ctx _ _ => node.SameRules ctx
  | .removeConflicts _ => True
  | .clear => True

/-! ## What a call for a block does -/

namespace MempoolNode

/-- A call for the first block fails. -/
theorem connectTip_genesis {ctx : ChainContext} {chain : ChainState} {vstate : CValidationState}
    {hash : Uint256}
    {fAlreadyChecked : Bool} (linked : Linked hash chain) :
    ∃ failure, chain.connectTip ctx vstate hash fAlreadyChecked = (chain, .error failure) := by
  unfold ChainState.connectTip
  split
  · exact ⟨_, rfl⟩
  · exact ⟨_, rfl⟩
  · rename_i pindex block index disk
    have orphan := (linked.root hash _ _ (place_eq index)).mpr rfl
    rw [orphan, linked.bestBlock, if_pos nofun]
    exact ⟨_, rfl⟩

section

variable {node ctx : ChainContext} {state : MempoolNode} {vstate : CValidationState}

/-- **`ConnectTip`**: the block is connected, and the pool is cleared of it, or the chain is
as before. -/
theorem connectTip_cases (linked : Linked node.hashGenesisBlock state.chain)
    (same : node.SameRules ctx) (honest : node.HonestDisk) (hash : Uint256)
    (fAlreadyChecked : Bool) :
    (∃ chain, SameChain state.chain chain ∧
      state.connectTip ctx vstate hash fAlreadyChecked = { state with chain }) ∨
    ∃ after pindex block effects booked bookedIndex,
      ConnectsTip (ctx.withPool state.pool) state.chain vstate hash after pindex block effects
        booked bookedIndex ∧
      state.connectTip ctx vstate hash fAlreadyChecked =
        ⟨after, state.pool.removeForBlock block.vtx⟩ := by
  have sameNode := same.withPool state.pool
  unfold MempoolNode.connectTip
  by_cases first : hash = node.hashGenesisBlock
  · subst first
    obtain ⟨failure, refused⟩ : ∃ failure, state.chain.connectTip (ctx.withPool state.pool) vstate
      node.hashGenesisBlock fAlreadyChecked = (state.chain, .error failure) :=
        connectTip_genesis linked
    rw [refused]
    exact Or.inl ⟨state.chain, ⟨.of_eq rfl, rfl, rfl, rfl⟩, rfl⟩
  · have later : ∀ block, (ctx.withPool state.pool).readBlockFromDisk hash = some block →
        block.hash ≠ (ctx.withPool state.pool).hashGenesisBlock := by
      intro block disk
      rw [sameNode.readBlockFromDisk] at disk
      rw [honest hash block disk, sameNode.hashGenesisBlock]
      exact first
    rcases called : state.chain.connectTip (ctx.withPool state.pool) vstate hash
      fAlreadyChecked with ⟨after, failure | _⟩
    · refine Or.inl ⟨after, ?_, rfl⟩
      rcases ChainState.connectTip_cases later called with ⟨rfl, -⟩ |
        ⟨_, _, -, -, -, refuses, -⟩ | ⟨-, ok⟩
      · exact ⟨.of_eq rfl, rfl, rfl, rfl⟩
      · exact refuses.toSameChain
      · cases ok
    · rcases ChainState.connectTip_cases later called with ⟨-, failure, error⟩ |
        ⟨_, _, -, -, -, -, failure, error⟩ | ⟨⟨pindex, block, effects, booked, bookedIndex,
          connects⟩, -⟩
      · cases error
      · cases error
      · refine Or.inr ⟨after, pindex, block, effects, booked, bookedIndex, connects, ?_⟩
        have disk : ctx.readBlockFromDisk hash = some block := connects.disk
        rw [disk]
        rfl

/-- **`DisconnectTip`**: the block is taken back, its transactions go back to the pool while
the active chain still has the block, and what is premature is removed; or the chain is as
before. -/
theorem disconnectTip_cases {rules : MempoolContext} {next : MempoolNode}
    (went : state.disconnectTip ctx rules vstate = some next) :
    (∃ chain, SameChain state.chain chain ∧ next = { state with chain }) ∨
    ∃ after hash hashPrev pindex block vtxundo current pool,
      DisconnectsTip (ctx.withPool state.pool) state.chain vstate after hash hashPrev pindex
        block vtxundo current ∧
      (block.vtx.foldl (resurrect ctx rules { after with chainActive := state.chain.chainActive })
        state.pool).removeCoinbaseSpends ctx.supply after.coinsTip.coins pindex.nHeight =
          some pool ∧ next = ⟨after, pool⟩ := by
  unfold MempoolNode.disconnectTip at went
  rcases called : state.chain.disconnectTip (ctx.withPool state.pool) vstate with
    ⟨after, failure | _⟩
  · rw [called] at went
    cases went
    rcases ChainState.disconnectTip_cases called with ⟨⟨db, store, rfl⟩, -⟩ | ⟨-, ok⟩
    · refine Or.inl ⟨{ state.chain with zerocoinDB := db, accumulators := store }, ?_, rfl⟩
      exact ⟨.of_eq rfl, rfl, rfl, rfl⟩
    · cases ok
  · rw [called] at went
    rcases ChainState.disconnectTip_cases called with ⟨-, failure, error⟩ |
      ⟨⟨hash, hashPrev, pindex, block, vtxundo, current, disconnects⟩, -⟩
    · cases error
    · have disk : ctx.readBlockFromDisk hash = some block := disconnects.disk
      simp only [disconnects.tip, disk, disconnects.index, Option.bind_eq_bind, Option.bind_some,
        Option.bind_eq_some_iff, Option.pure_def, Option.some.injEq] at went
      obtain ⟨pool, removed, rfl⟩ := went
      exact Or.inr ⟨after, hash, hashPrev, pindex, block, vtxundo, current, pool, disconnects,
        removed, rfl⟩

/-- The transactions go back under the rules of the block that is taken back. -/
theorem poolZerocoinActive_of_disconnects {after : ChainState} {hash hashPrev : Uint256}
    {pindex : ChainIndex} {block : CBlock} {vtxundo : List CTxUndo} {current : DisconnectState}
    (disconnects : DisconnectsTip (ctx.withPool state.pool) state.chain vstate after hash hashPrev
      pindex block vtxundo current) :
    ctx.poolZerocoinActive { after with chainActive := state.chain.chainActive } =
      ctx.poolZerocoinActive state.chain := by
  unfold ChainContext.poolZerocoinActive ChainContext.nodeAt ChainState.tip
  rw [disconnects.mapBlockIndex]

end

end MempoolNode

/-! ## What is removed when a block is taken back -/

namespace TxPool

variable {known : Uint256 → CTransaction} {params : CChainParams} {pool after : TxPool}
  {supply : SupplyParams} {coins : CoinsMap} {nMemPoolHeight : Int}

theorem removes_foldl_remove (indexed : Indexed known params pool)
    (entries : List CTxMemPoolEntry) :
    Removes known params pool
      (entries.foldl (fun pool entry => pool.remove entry.tx true) pool) ∧
      ∀ entry ∈ entries, (entries.foldl (fun pool entry => pool.remove entry.tx true) pool).lookup
        entry.tx.hash = none := by
  induction entries generalizing pool with
  | nil => exact ⟨.refl indexed, by simp⟩
  | cons entry rest ih =>
      have first : Removes known params pool (pool.remove entry.tx true) := removes_remove indexed
      obtain ⟨later, gone⟩ := ih first.indexed
      rw [List.foldl_cons, List.forall_mem_cons]
      exact ⟨first.trans later, later.within.none lookup_remove_self, gone⟩

/-- **`removeCoinbaseSpends`** leaves no input of the chain that is gone or not mature. -/
theorem removeCoinbaseSpends_eq_some (indexed : Indexed known params pool)
    (removed : pool.removeCoinbaseSpends supply coins nMemPoolHeight = some after) :
    Removes known params pool after ∧ ∀ hash tx, after.lookup hash = some tx →
      ∀ txin ∈ tx.vin, pool.spendsPremature supply coins nMemPoolHeight txin = false := by
  unfold removeCoinbaseSpends at removed
  dsimp only at removed
  split at removed
  · cases removed
  · cases removed
    obtain ⟨removes, gone⟩ := removes_foldl_remove indexed (pool.inOrder.filter fun entry =>
      (entry.tx.vin.find? (pool.spendsPremature supply coins nMemPoolHeight)).isSome)
    refine ⟨removes, ?_⟩
    intro hash tx here txin member
    by_contra premature
    have before := removes.within hash tx here
    obtain ⟨entry, found, rfl⟩ := lookup_eq_some.mp before
    have listed : entry ∈ pool.inOrder.filter fun entry =>
        (entry.tx.vin.find? (pool.spendsPremature supply coins nMemPoolHeight)).isSome := by
      rw [List.mem_filter, List.find?_isSome]
      exact ⟨mem_inOrder.mpr ⟨hash, found⟩, txin, member, Bool.not_eq_false _ ▸ premature⟩
    have absent := gone entry listed
    rw [(indexed.held hash _ before).1, here] at absent
    cases absent

/-- What is left is backed by mature coins. -/
theorem backed_of_removeCoinbaseSpends (indexed : Indexed known params pool) {top : Int}
    (sourced : coins.Sourced known top) (later : top ≤ nMemPoolHeight)
    (backed : pool.Backed fun out => (coins out.hash).Unspent out.n.toNat)
    (removed : pool.removeCoinbaseSpends supply coins nMemPoolHeight = some after) :
    after.Backed (coins.Offers supply nMemPoolHeight) := by
  obtain ⟨removes, ripe⟩ := removeCoinbaseSpends_eq_some indexed removed
  intro hash tx here spends txin member
  cases parent : pool.lookup txin.prevout.hash with
  | some other =>
      apply Or.inl
      apply removes.parents hash tx here spends txin member
      rw [parent]
      rfl
  | none =>
      rcases backed hash tx (removes.within hash tx here) spends txin member with pooled | unspent
      · rw [parent] at pooled
        cases pooled
      · refine Or.inr ⟨unspent, ?_⟩
        intro generated
        have low := sourced.heights _ unspent.isPruned
        have deep := ripe hash tx here txin member
        unfold spendsPremature at deep
        rw [Option.map_eq_none_iff.mp parent] at deep
        simp only [Option.isNone_none, Bool.true_and, unspent.isPruned, Bool.false_or, generated,
          decide_eq_false_iff_not, not_lt] at deep
        -- the difference of the heights is not negative, so that the subtraction is exact
        omega

/-- **The transactions of the block go back** one by one. An input of the pool may
lack a transaction of the block that has not had its turn. -/
theorem foldl_resurrect {ctx : ChainContext} {rules : MempoolContext} {chain : ChainState}
    {top : Int} {tip : ChainIndex} (sourced : chain.coinsTip.coins.Sourced known top)
    (best : chain.mapBlockIndex chain.coinsTip.hashBlock = some tip)
    {txs : List CTransaction} (named : ∀ tx ∈ txs, known tx.hash = tx ∧ tx.hash ≠ 0)
    (unmixed : ctx.poolZerocoinActive chain = true ∨ ∀ tx ∈ txs, tx.mixed = false)
    (indexed : Indexed known ctx.params pool)
    (backed : pool.Backed fun out => (chain.coinsTip.coins out.hash).Unspent out.n.toNat ∨
      out.hash ∈ txs.map CTransaction.hash) :
    Indexed known ctx.params (txs.foldl (resurrect ctx rules chain) pool) ∧
      (txs.foldl (resurrect ctx rules chain) pool).Backed
        fun out => (chain.coinsTip.coins out.hash).Unspent out.n.toNat := by
  induction txs generalizing pool with
  | nil =>
      refine ⟨indexed, backed.mono ?_⟩
      intro out offered
      exact offered.resolve_right (List.not_mem_nil)
  | cons tx rest ih =>
      rw [List.forall_mem_cons] at named
      have others : ctx.poolZerocoinActive chain = true ∨ ∀ tx ∈ rest, tx.mixed = false :=
        unmixed.imp_right fun all other member => all other (List.mem_cons_of_mem _ member)
      -- without the transaction its children go as well
      have removed : Indexed known ctx.params (pool.remove tx true) ∧
          (pool.remove tx true).Backed fun out =>
            (chain.coinsTip.coins out.hash).Unspent out.n.toNat ∨
              out.hash ∈ rest.map CTransaction.hash := by
        have removes : Removes known ctx.params pool (pool.remove tx true) :=
          removes_remove indexed
        refine ⟨removes.indexed, ?_⟩
        intro hash other here spends txin member
        refine (backed.removes removes hash other here spends txin member).imp_right ?_
        refine Or.imp_right fun listed => ?_
        rw [List.map_cons, List.mem_cons] at listed
        exact listed.resolve_left
          (not_child_of_remove indexed named.1.1 here spends member)
      have next : Indexed known ctx.params (resurrect ctx rules chain pool tx) ∧
          (resurrect ctx rules chain pool tx).Backed fun out =>
            (chain.coinsTip.coins out.hash).Unspent out.n.toNat ∨
              out.hash ∈ rest.map CTransaction.hash := by
        unfold resurrect
        split
        · exact removed
        · cases accepted : pool.accept ctx rules chain {} false false false tx with
          | none => exact removed
          | some added =>
              have plain := unmixed.imp_right fun all => all tx List.mem_cons_self
              refine ⟨indexed.accept sourced named.1 plain accepted, ?_⟩
              have grown := backed.accept sourced.origins best
                (fun out offered => Or.inl offered.1) accepted
              intro hash other here spends txin member
              rcases grown hash other here spends txin member with pooled | unspent | listed
              · exact Or.inl pooled
              · exact Or.inr (Or.inl unspent)
              · rw [List.map_cons, List.mem_cons] at listed
                rcases listed with same | later
                · apply Or.inl
                  obtain ⟨-, rfl⟩ := accept_eq_some accepted
                  rw [Option.getD_some, lookup_addUnchecked, if_pos same]
                  rfl
                · exact Or.inr (Or.inr later)
      exact ih named.2 others next.1 next.2

end TxPool

/-! ## The invariant -/

namespace MempoolNode

/-- **What holds in every state**: the index fits, and every input is backed. -/
structure Holds (known : Uint256 → CTransaction) (node : ChainContext) (state : MempoolNode)
    (canon : Uint256 → UtxoView) : Prop where
  sourced : ChainSourced known node state.chain canon
  indexed : Indexed known node.params state.pool
  backed : state.pool.Backed
    (state.chain.coinsTip.coins.Offers node.supply state.chain.chainActive.length)

variable {known : Uint256 → CTransaction} {node ctx : ChainContext} {state : MempoolNode}
  {canon : Uint256 → UtxoView}

namespace Holds

/-- A transaction is offered. -/
theorem accept (holds : Holds known node state canon) (same : node.SameRules ctx)
    {rules : MempoolContext} {vstate : CValidationState}
    {fLimitFree fRejectInsaneFee ignoreFees : Bool} {tx : CTransaction}
    (named : known tx.hash = tx ∧ tx.hash ≠ 0)
    (unmixed : ctx.poolZerocoinActive state.chain = true ∨ tx.mixed = false) :
    Holds known node { state with pool := (state.pool.accept ctx rules state.chain vstate
      fLimitFree fRejectInsaneFee ignoreFees tx).getD state.pool } canon := by
  cases accepted : state.pool.accept ctx rules state.chain vstate fLimitFree fRejectInsaneFee
      ignoreFees tx with
  | none => exact holds
  | some after =>
      have coins := holds.sourced.coinsTip
      obtain ⟨tip, best, height⟩ := holds.sourced.exists_tip
      have indexed := holds.indexed
      rw [← same.params] at indexed
      refine ⟨holds.sourced, ?_, ?_⟩
      · rw [← same.params]
        exact indexed.accept coins named unmixed accepted
      · apply holds.backed.accept coins.origins best _ accepted
        intro out offered
        rwa [height, same.supply] at offered

theorem removes (holds : Holds known node state canon) {pool : TxPool}
    (removes : Removes known node.params state.pool pool) :
    Holds known node { state with pool } canon :=
  ⟨holds.sourced, removes.indexed, holds.backed.removes removes⟩

theorem sameChain (holds : Holds known node state canon) {chain : ChainState}
    (same : SameChain state.chain chain) : Holds known node { state with chain } canon := by
  refine ⟨holds.sourced.sameChain same, holds.indexed, ?_⟩
  show state.pool.Backed (chain.coinsTip.coins.Offers node.supply chain.chainActive.length)
  rw [same.coinsTip, same.chainActive]
  exact holds.backed

/-- The pool is emptied. -/
theorem clear (holds : Holds known node state canon) :
    Holds known node { state with pool := state.pool.clear } canon := by
  refine ⟨holds.sourced, indexed_clear state.pool, ?_⟩
  intro hash tx here
  cases here

/-! ## A block is connected -/

section

variable {after booked : ChainState} {vstate : CValidationState} {hash : Uint256}
  {pindex bookedIndex : ChainIndex} {block : CBlock} {effects : BlockEffects}

/-- **What the block leaves in the pool is backed** by what it leaves of the coins. -/
theorem backed_removeForBlock (holds : Holds known node state canon) {undos : List CTxUndo}
    (named : ∀ tx ∈ block.vtx, known tx.hash = tx ∧ tx.hash ≠ 0)
    (replays : Replays pindex.nHeight block.vtx state.chain.coinsTip.coins undos
      after.coinsTip.coins) (origins : after.coinsTip.coins.FromKnown known)
    {nSpendHeight : Int} (later : (state.chain.chainActive.length : Int) ≤ nSpendHeight) :
    (state.pool.removeForBlock block.vtx).Backed
      (after.coinsTip.coins.Offers node.supply nSpendHeight) := by
  have left : LeftByBlock known node.params block.vtx state.pool
      (state.pool.removeForBlock block.vtx) := leftByBlock_removeForBlock holds.indexed block.vtx
  have cleared := clearedByBlock_removeForBlock holds.indexed.marked block.vtx
  intro other tx here spends txin member
  have before := cleared.within other tx here
  have free := cleared.free other tx here spends txin member
  obtain ⟨-, out, found, spendable⟩ :=
    (holds.indexed.admitted before).inputs spends txin member
  cases parent : state.pool.lookup txin.prevout.hash with
  | some inPool =>
      have present : (state.pool.lookup txin.prevout.hash).isSome := by
        rw [parent]
        rfl
      rcases left.parents other tx here spends txin member present with kept | made
      · exact Or.inl kept
      · -- the parent is in the block now
        have unspent := replays.unspent_of_made made named free found spendable
        obtain ⟨same, admitted⟩ := holds.indexed.held _ _ parent
        refine Or.inr ⟨unspent, ?_⟩
        have alive := unspent.isPruned
        rw [← same] at alive ⊢
        exact origins.mature admitted alive node.supply nSpendHeight
  | none =>
      rcases holds.backed other tx before spends txin member with pooled | offered
      · rw [parent] at pooled
        cases pooled
      · obtain ⟨unspent, remains⟩ := replays.unspent_of_free offered.1 free
        exact Or.inr ⟨unspent, (offered.2.remains remains).mono later⟩

theorem connects (holds : Holds known node state canon) (same : node.SameNode ctx)
    (names : node.NamesTransactions known)
    (connects : ConnectsTip ctx state.chain vstate hash after pindex block effects booked
      bookedIndex)
    (fresh : OverwritesNone pindex.nHeight block.vtx state.chain.coinsTip.coins) :
    ∃ canon, Holds known node ⟨after, state.pool.removeForBlock block.vtx⟩ canon := by
  obtain ⟨⟨extended, sourced⟩, undos, replays⟩ :=
    holds.sourced.connects same names connects fresh
  have named := names hash block (same.readBlockFromDisk ▸ connects.disk)
  refine ⟨extended, sourced, (leftByBlock_removeForBlock holds.indexed block.vtx).indexed, ?_⟩
  apply holds.backed_removeForBlock named replays sourced.coinsTip.origins
  rw [connects.chainActive, List.length_append, List.length_singleton, Nat.cast_add]
  exact Int.le_add_of_nonneg_right Int.one_nonneg

end

/-- **`ConnectTip`** of a block that overwrites nothing. -/
theorem connectTip (holds : Holds known node state canon) (same : node.SameRules ctx)
    (honest : node.HonestDisk) (names : node.NamesTransactions known)
    {vstate : CValidationState} {hash : Uint256} {fAlreadyChecked : Bool}
    (fresh : ∀ pindex block, state.chain.mapBlockIndex hash = some pindex →
      node.readBlockFromDisk hash = some block →
      pindex.hashPrev = state.chain.chainActive.getLast? →
      OverwritesNone pindex.nHeight block.vtx state.chain.coinsTip.coins) :
    ∃ canon, Holds known node (state.connectTip ctx vstate hash fAlreadyChecked) canon := by
  have sameNode := same.withPool state.pool
  rcases connectTip_cases holds.sourced.recorded.linked same honest hash fAlreadyChecked with
    ⟨chain, sameChain, went⟩ | ⟨after, pindex, block, effects, booked, _, connects, went⟩
  · rw [went]
    exact ⟨canon, holds.sameChain sameChain⟩
  · rw [went]
    exact holds.connects sameNode names connects (fresh pindex block connects.index
      (sameNode.readBlockFromDisk ▸ connects.disk) connects.parent)

/-! ## A block is disconnected -/

/-- The height of the block that is taken back. -/
theorem nHeight_of_disconnects (holds : Holds known node state canon) {vstate : CValidationState}
    {after : ChainState} {hash hashPrev : Uint256} {pindex : ChainIndex} {block : CBlock}
    {vtxundo : List CTxUndo} {current : DisconnectState}
    (disconnects : DisconnectsTip ctx state.chain vstate after hash hashPrev pindex block vtxundo
      current) : pindex.nHeight = after.chainActive.length := by
  obtain ⟨prev, place⟩ := holds.sourced.recorded.linked.tip
  rw [← disconnects.bestBlock, place_eq disconnects.index, Option.some.injEq,
    Prod.mk.injEq] at place
  have positive := List.length_pos_of_ne_nil holds.sourced.recorded.linked.nonempty
  rw [place.2, disconnects.chainActive, List.length_dropLast, Nat.cast_sub positive]
  rfl

/-- **`DisconnectTip`**, where the transactions that go back are not mixed. -/
theorem disconnectTip (holds : Holds known node state canon) (same : node.SameRules ctx)
    (names : node.NamesTransactions known) {rules : MempoolContext} {vstate : CValidationState}
    (unmixed : ctx.poolZerocoinActive state.chain = true ∨
      ∀ hash block, state.chain.chainActive.getLast? = some hash →
        node.readBlockFromDisk hash = some block → ∀ tx ∈ block.vtx, tx.mixed = false)
    {next : MempoolNode} (went : state.disconnectTip ctx rules vstate = some next) :
    Holds known node next canon := by
  have sameNode := same.withPool state.pool
  rcases disconnectTip_cases went with ⟨chain, sameChain, rfl⟩ |
    ⟨after, hash, hashPrev, pindex, block, vtxundo, current, pool, disconnects, removed, rfl⟩
  · exact holds.sameChain sameChain
  · obtain ⟨sourced, kept⟩ := holds.sourced.disconnects sameNode disconnects
    have disk : node.readBlockFromDisk hash = some block :=
      sameNode.readBlockFromDisk ▸ disconnects.disk
    have coins := sourced.coinsTip
    obtain ⟨tip, best, -⟩ := sourced.exists_tip
    have indexed := holds.indexed
    rw [← same.params] at indexed
    have plain : ctx.poolZerocoinActive
        { after with chainActive := state.chain.chainActive } = true ∨
          ∀ tx ∈ block.vtx, tx.mixed = false := by
      rw [poolZerocoinActive_of_disconnects disconnects]
      exact unmixed.imp_right fun all => all hash block disconnects.tip disk
    have lacking : state.pool.Backed fun out =>
        (after.coinsTip.coins out.hash).Unspent out.n.toNat ∨
          out.hash ∈ block.vtx.map CTransaction.hash := by
      apply holds.backed.mono
      intro out offered
      by_cases own : out.hash ∈ block.vtx.map CTransaction.hash
      · exact Or.inr own
      · exact Or.inl (kept out.hash _ offered.1 own)
    obtain ⟨indexedBack, backedBack⟩ := @foldl_resurrect known state.pool ctx rules
      { after with chainActive := state.chain.chainActive } _ tip coins best block.vtx
      (names hash block disk) plain indexed lacking
    have height := holds.nHeight_of_disconnects disconnects
    refine ⟨sourced, ?_, ?_⟩
    · rw [← same.params]
      exact (removeCoinbaseSpends_eq_some indexedBack removed).1.indexed
    · show pool.Backed (after.coinsTip.coins.Offers node.supply after.chainActive.length)
      rw [← same.supply, ← height]
      apply backed_of_removeCoinbaseSpends indexedBack coins _ backedBack removed
      rw [height]
      exact Int.sub_le_self _ Int.one_nonneg

end Holds

end MempoolNode

end GiantCore
