import GiantCore.Validation.ConnectBlock

/-! # Transactions that overwrite others

Adding the outputs of a transaction replaces the entry of its identifier in the
coin database. `ConnectBlock` refuses a block with a transaction whose identifier
has an unspent entry only if the block index has no hash, which is so for the
block templates of `CreateNewBlock`. A block that is connected to the chain is not
tested.
-/

namespace GiantCore

open CCoins CoinsMap

/-! ## Outputs that are left -/

/-- The outputs that are unspent after some transactions, the last one first: those
that the last one makes, and those that were left before it and that it does not
spend. The outputs of an identifier go when a transaction makes them anew. -/
def LeftUnspent (view : CoinsMap) : List CTransaction → Uint256 → Nat → Prop
  | [], txid, n => (view txid).Unspent n
  | tx :: earlier, txid, n =>
      if tx.hash = txid then
        ∃ out, tx.vout[n]? = some out ∧ CScript.isUnspendable out.scriptPubKey = false
      else LeftUnspent view earlier txid n ∧ ∀ out ∈ tx.spent, out.hash = txid → out.n.toNat ≠ n

/-- No transaction finds an unspent entry under its own identifier. -/
def FreshTxids (nHeight : Int) : List CTransaction → CoinsMap → Prop
  | [], _ => True
  | tx :: rest, view => (view tx.hash).isPruned = true ∧
      ∀ after undo, updateCoins tx nHeight view = some (after, undo) → FreshTxids nHeight rest after

theorem CCoins.unspent_cleanup {coins : CCoins} {n : Nat} :
    coins.cleanup.Unspent n ↔ coins.Unspent n := by
  unfold Unspent cleanup
  constructor
  · intro ⟨out, found, full⟩
    exact ⟨out, (Foundation.TrimmedArray.getElem?_rdropWhile full).mp found, full⟩
  · intro ⟨out, found, full⟩
    exact ⟨out, (Foundation.TrimmedArray.getElem?_rdropWhile full).mpr found, full⟩

/-- The outputs that a transaction makes. -/
theorem CCoins.unspent_fromTx {tx : CTransaction} {nHeight : Int} {n : Nat}
    (values : ∀ out ∈ tx.vout, out.isNull = false) :
    (fromTx tx nHeight).Unspent n ↔
      ∃ out, tx.vout[n]? = some out ∧ CScript.isUnspendable out.scriptPubKey = false := by
  rw [fromTx, clearUnspendable, unspent_cleanup]
  simp only [Unspent, List.getElem?_map, Option.map_eq_some_iff]
  constructor
  · intro ⟨cleared, ⟨out, found, same⟩, full⟩
    refine ⟨out, found, ?_⟩
    by_contra unspendable
    rw [if_pos (by simpa using unspendable)] at same
    rw [← same] at full
    cases full
  · intro ⟨out, found, spendable⟩
    refine ⟨out, ⟨out, found, ?_⟩, values out (List.mem_of_getElem? found)⟩
    rw [if_neg (by simp [spendable])]

theorem CoinsMap.unspent_spendInputs {vin : List CTxIn} {view after : CoinsMap}
    {undos : List CTxInUndo} (spends : spendInputs vin view = some (after, undos))
    (txid : Uint256) (n : Nat) :
    (after txid).Unspent n ↔ (view txid).Unspent n ∧
      ∀ out ∈ vin.map CTxIn.prevout, out.hash = txid → out.n.toNat ≠ n := by
  induction vin generalizing view undos with
  | nil =>
      cases spends
      simp
  | cons txin rest ih =>
      obtain ⟨coins, undo, others, first, remaining, rfl⟩ := spendInputs_cons spends
      rw [ih remaining, List.map_cons, List.forall_mem_cons]
      by_cases same : txid = txin.prevout.hash
      · subst same
        rw [modifyCoins_self, unspent_cleanup, unspent_spend first]
        constructor
        · intro ⟨⟨unspent, different⟩, others⟩
          exact ⟨unspent, fun _ => Ne.symm different, others⟩
        · intro ⟨unspent, different, others⟩
          exact ⟨⟨unspent, Ne.symm (different rfl)⟩, others⟩
      · rw [modifyCoins_of_ne view coins same]
        constructor
        · intro ⟨unspent, others⟩
          exact ⟨unspent, fun equal => absurd equal.symm same, others⟩
        · intro ⟨unspent, _, others⟩
          exact ⟨unspent, others⟩

/-- **One transaction** leaves the outputs that are its own, and those that were there
and that it does not spend. -/
theorem CoinsMap.unspent_updateCoins {tx : CTransaction} {nHeight : Int} {view after : CoinsMap}
    {undo : CTxUndo} (values : ∀ out ∈ tx.vout, out.isNull = false)
    (updates : updateCoins tx nHeight view = some (after, undo)) (txid : Uint256) (n : Nat) :
    (after txid).Unspent n ↔
      if tx.hash = txid then
        ∃ out, tx.vout[n]? = some out ∧ CScript.isUnspendable out.scriptPubKey = false
      else (view txid).Unspent n ∧ ∀ out ∈ tx.spent, out.hash = txid → out.n.toNat ≠ n := by
  simp only [updateCoins, Option.map_eq_some_iff, Prod.exists, Prod.mk.injEq] at updates
  obtain ⟨marked, record, marks, rfl, rfl⟩ := updates
  by_cases same : tx.hash = txid
  · subst same
    rw [if_pos rfl, addOutputs, modifyCoins_self, unspent_cleanup, unspent_fromTx values]
  · rw [if_neg same, addOutputs, modifyCoins_of_ne _ _ (Ne.symm same)]
    rcases markSpent_cases marks with ⟨spends, done⟩ | ⟨spends, rfl⟩
    · rw [CTransaction.spent, if_pos spends]
      exact unspent_spendInputs done txid n
    · simp [CTransaction.spent, spends]

/-! ## A block -/

section

variable {ctx : ConnectContext}

/-- One round of the loop updates the coins. -/
theorem ConnectContext.updateCoins_of_connectTx {nHeight : Int} {done : List CTransaction}
    {tx : CTransaction} {state next : ConnectState} {undo : CTxUndo}
    (connects : ctx.connectTx nHeight done tx state = some (undo, next)) :
    updateCoins tx nHeight state.view = some (next.view, undo) := by
  obtain ⟨after, -, marked, created, -, -⟩ := ctx.connectTx_cases connects
  rw [updateCoins, marked, created]
  rfl

/-- **A block whose transactions go through** overwrites nothing exactly if nothing is
left under an identifier when its transaction comes. -/
theorem freshTxids_of_connectTxs {nHeight : Int} {start : CoinsMap}
    {before done txs : List CTransaction} {state last : ConnectState} {undos : List CTxUndo}
    (left : ∀ txid n, (state.view txid).Unspent n ↔ LeftUnspent start before txid n)
    (connects : ctx.connectTxs nHeight done txs state = some (undos, last)) :
    FreshTxids nHeight txs state.view ↔
      ∀ first tx rest, txs = first ++ tx :: rest →
        ∀ n, ¬ LeftUnspent start (first.reverse ++ before) tx.hash n := by
  induction txs generalizing before done state undos with
  | nil => simp [FreshTxids]
  | cons tx txs ih =>
      obtain ⟨undo, next, others, first, remaining, rfl⟩ := ctx.connectTxs_cons connects
      obtain ⟨-, -, -, -, -, values⟩ := ctx.connectTx_cases first
      have updates := ctx.updateCoins_of_connectTx first
      have leftNext : ∀ txid n, (next.view txid).Unspent n ↔
          LeftUnspent start (tx :: before) txid n := by
        intro txid n
        rw [unspent_updateCoins values updates, LeftUnspent, left]
      have others : FreshTxids nHeight txs next.view ↔ _ := ih leftNext remaining
      have head : (state.view tx.hash).isPruned = true ↔
          ∀ n, ¬ LeftUnspent start before tx.hash n := by
        rw [isPruned_iff]
        simp only [left]
      have later : (∀ after undo, updateCoins tx nHeight state.view = some (after, undo) →
          FreshTxids nHeight txs after) ↔ FreshTxids nHeight txs next.view := by
        simp [updates]
      rw [FreshTxids, later, head, others]
      constructor
      · rintro ⟨here, after⟩ (_ | ⟨front, first⟩) other rest split
        · obtain ⟨rfl, rfl⟩ := List.cons.inj split
          exact here
        · obtain ⟨rfl, rfl⟩ := List.cons.inj split
          simpa using after first other rest rfl
      · intro all
        refine ⟨all [] tx txs rfl, ?_⟩
        intro first other rest split
        simpa using all (tx :: first) other rest (by rw [split]; rfl)

/-- What is not there is not destroyed. -/
theorem overwritesNone_of_freshTxids {nHeight : Int} {txs : List CTransaction} {view : CoinsMap}
    (fresh : FreshTxids nHeight txs view) : OverwritesNone nHeight txs view := by
  induction txs generalizing view with
  | nil => trivial
  | cons tx rest ih =>
      intro after undo marked
      refine ⟨?_, ih (fresh.2 _ undo (by rw [updateCoins, marked]; rfl))⟩
      rcases markSpent_cases marked with ⟨-, done⟩ | ⟨-, rfl⟩
      · rw [spendInputs_of_isPruned fresh.1 done]
        exact fresh.1
      · exact fresh.1

end

/-- **When a connected block overwrites nothing.** A block that `ConnectBlock` accepts
for an index with a hash has no transaction that finds, or destroys, an unspent
entry under its identifier if and only if all outputs of older transactions with
the same identifiers are spent when their transactions come. The first block
is accepted without its transactions. -/
theorem freshTxids_iff (ctx : ChainContext) (state : ChainState) (block : CBlock)
    (vstate : CValidationState) (hash : Uint256) (pindex : ChainIndex) (view after : CoinsView)
    (fAlreadyChecked : Bool) (found : state.mapBlockIndex hash = some pindex)
    (accepted : (state.connectBlock ctx block vstate (.entry hash) view false
      fAlreadyChecked).2 = .ok after) :
    (block.hash ≠ ctx.hashGenesisBlock → FreshTxids pindex.nHeight block.vtx view.coins ∧
      OverwritesNone pindex.nHeight block.vtx view.coins) ↔
    (block.hash ≠ ctx.hashGenesisBlock → ∀ done tx rest, block.vtx = done ++ tx :: rest →
      ∀ n, ¬ LeftUnspent view.coins done.reverse tx.hash n) := by
  apply imp_congr_right
  intro later
  obtain ⟨found', effects, _, _, _, _, accepts, -⟩ := ChainState.connectBlock_eq_ok accepted later
  have same : found' = pindex := by
    have index := accepts.index
    rw [ChainState.index, found] at index
    exact (Option.some.inj index).symm
  subst same
  obtain ⟨fScriptChecks, undos, rounds, -⟩ :=
    ChainState.connectTransactions_eq_ok accepts.transactions
  have connects := connectTxs_of_connectRounds rounds
  have exact : FreshTxids found'.nHeight block.vtx view.coins ↔ ∀ first tx rest,
      block.vtx = first ++ tx :: rest → ∀ n, ¬ LeftUnspent view.coins (first.reverse ++ [])
        tx.hash n :=
    freshTxids_of_connectTxs (fun txid n => Iff.rfl) connects
  simp only [List.append_nil] at exact
  rw [← exact]
  exact ⟨fun both => both.1, fun fresh => ⟨fresh, overwritesNone_of_freshTxids fresh⟩⟩

/-- Two blocks with the same coinbase. -/
def twinBlocks : List CBlock :=
  [blockAt 101 100 [plainCoinBase 0], blockAt 102 101 [plainCoinBase 0]]

/-- A node that knows the two blocks. -/
def beforeTwins : ChainState := .genesis (twinBlocks.zip [1, 2])

/-- The node after the first of them. -/
def betweenTwins : ChainState := (beforeTwins.connectTip (.mainChain twinBlocks) {} 101 false).1

/-- Two blocks with coinbases of their own. -/
def ownCoinBases : List CBlock :=
  [blockAt 101 100 [plainCoinBase 0], blockAt 102 101 [{ plainCoinBase 0 with hash := 501 }]]

/-- The node between them. -/
def betweenOwnCoinBases : ChainState :=
  ((ChainState.genesis (ownCoinBases.zip [1, 2])).connectTip (.mainChain ownCoinBases) {} 101
    false).1

/-- The second of them overwrites nothing: the coinbase of the first stays. -/
theorem freshTxids_ownCoinBases :
    (betweenOwnCoinBases.coinsTip.coins 500).isPruned = false ∧
    FreshTxids 2 [{ plainCoinBase 0 with hash := 501 }] betweenOwnCoinBases.coinsTip.coins := by
  refine ⟨by decide +kernel, ?_⟩
  obtain ⟨after, accepted⟩ := exists_of_isOk (betweenOwnCoinBases.connectBlock
    (.mainChain ownCoinBases) (blockAt 102 101 [{ plainCoinBase 0 with hash := 501 }]) {}
    (.entry 102) betweenOwnCoinBases.coinsTip false false).2 (by decide +kernel)
  obtain ⟨pindex, found, height⟩ : ∃ pindex,
      betweenOwnCoinBases.mapBlockIndex 102 = some pindex ∧ pindex.nHeight = 2 := by
    have second : (betweenOwnCoinBases.mapBlockIndex 102).map ChainIndex.nHeight = some 2 := by
      decide +kernel
    exact Option.map_eq_some_iff.mp second
  have fresh := (freshTxids_iff _ _ _ _ _ pindex _ _ _ found accepted).mpr (fun _ => ?_) (by decide)
  · rw [height] at fresh
    exact fresh.1
  intro done tx rest split n left
  have alone : done = [] := by
    cases done with
    | nil => rfl
    | cons first others => simp [blockAt, blockOn] at split
  subst alone
  cases split
  have missing : (betweenOwnCoinBases.coinsTip.coins 501).vout.length = 0 := by decide +kernel
  obtain ⟨out, found, -⟩ := left
  have inside : n < (betweenOwnCoinBases.coinsTip.coins 501).vout.length :=
    (List.getElem?_eq_some_iff.mp found).1
  omega

/-- The second block is accepted, and its coinbase overwrites that of the first. -/
theorem not_freshTxids_betweenTwins :
    ¬ ∀ (ctx : ChainContext) (state : ChainState) (block : CBlock) (vstate : CValidationState)
      (hash : Uint256) (pindex : ChainIndex) (view after : CoinsView) (fAlreadyChecked : Bool),
      state.mapBlockIndex hash = some pindex →
      (state.connectBlock ctx block vstate (.entry hash) view false fAlreadyChecked).2 =
        .ok after →
      block.hash ≠ ctx.hashGenesisBlock → FreshTxids pindex.nHeight block.vtx view.coins ∧
        OverwritesNone pindex.nHeight block.vtx view.coins := by
  intro fresh
  obtain ⟨after, accepted⟩ := exists_of_isOk (betweenTwins.connectBlock
    (.mainChain twinBlocks) (blockAt 102 101 [plainCoinBase 0]) {} (.entry 102)
    betweenTwins.coinsTip false false).2 (by decide +kernel)
  obtain ⟨pindex, found⟩ : ∃ pindex, betweenTwins.mapBlockIndex 102 = some pindex :=
    Option.isSome_iff_exists.mp (by decide +kernel)
  obtain ⟨⟨pruned, -⟩, -⟩ := fresh _ _ _ _ _ pindex _ _ _ found accepted (by decide)
  have alive : (betweenTwins.coinsTip.coins 500).isPruned = false := by decide +kernel
  exact absurd (pruned.symm.trans alive) (by decide)

end GiantCore
