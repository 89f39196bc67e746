import GiantCore.Mempool.Backing
import GiantCore.Validation.MoneySupply

/-! # The coins of a chain

What connecting and disconnecting a block does to the outputs that the memory pool
spends. A block that overwrites nothing leaves the outputs that none of its transactions
spends, and taking it back leaves all outputs that are not its own.

Disconnecting may lose the coinstake flag of coins but never sets it, so that coins with
the flag are always those of a coinstake.
-/

namespace GiantCore

open CoinsMap ChainState

/-! ## Where the coins come from -/

/-- **The coins of a chain** up to a height: their transactions have hashes other than
zero, and spend one another in some order. -/
structure CoinsMap.Sourced (known : Uint256 → CTransaction) (top : Int) (coins : CoinsMap) :
    Prop where
  origins : coins.FromKnown known
  nonzero : ∀ txid, (coins txid).isPruned = false → txid ≠ 0
  grounded : ∀ txid, (coins txid).isPruned = false → Acc (SpendsFrom known) txid
  heights : ∀ txid, (coins txid).isPruned = false → (coins txid).nHeight ≤ top

/-- The flags of coinstakes are those of coinstakes. -/
def CoinsMap.StakesKnown (known : Uint256 → CTransaction) (coins : CoinsMap) : Prop :=
  ∀ txid, (coins txid).fCoinStake = true → (known txid).isCoinStake = true

theorem CCoins.Alike.unspent_iff {coins other : CCoins} (alike : coins.Alike other) (n : Nat) :
    other.Unspent n ↔ coins.Unspent n := by
  rcases alike with ⟨first, second⟩ | ⟨stake, rfl⟩
  · exact iff_of_false ((isPruned_iff other).mp second n) ((isPruned_iff coins).mp first n)
  · exact Iff.rfl

theorem CoinsMap.unspent_of_spendInputs {vin : List CTxIn} {view after : CoinsMap}
    {undos : List CTxInUndo} (spends : spendInputs vin view = some (after, undos)) :
    ∀ txin ∈ vin, (view txin.prevout.hash).Unspent txin.prevout.n.toNat := by
  induction vin generalizing view undos with
  | nil => simp
  | cons txin rest ih =>
      obtain ⟨coins, undo, others, first, remaining, rfl⟩ := spendInputs_cons spends
      rw [List.forall_mem_cons]
      refine ⟨CCoins.unspent_of_spend first, ?_⟩
      intro other member
      have later := ih remaining other member
      by_cases same : other.prevout.hash = txin.prevout.hash
      · rw [same] at later ⊢
        rw [modifyCoins_self, CCoins.unspent_cleanup, CCoins.unspent_spend first] at later
        exact later.1
      · rwa [modifyCoins_of_ne _ _ same] at later

namespace CoinsMap.Sourced

variable {known : Uint256 → CTransaction} {top nHeight : Int} {view : CoinsMap}

theorem mono (sourced : view.Sourced known top) (later : top ≤ nHeight) :
    view.Sourced known nHeight where
  origins := sourced.origins
  nonzero := sourced.nonzero
  grounded := sourced.grounded
  heights txid alive := (sourced.heights txid alive).trans later

theorem remains {left : CoinsMap} (sourced : view.Sourced known top)
    (remains : Remains view left) : left.Sourced known top where
  origins := sourced.origins.remains remains
  nonzero txid alive := sourced.nonzero txid ((remains txid).isPruned alive)
  grounded txid alive := sourced.grounded txid ((remains txid).isPruned alive)
  heights txid alive := by
    rw [(remains txid).nHeight]
    exact sourced.heights txid ((remains txid).isPruned alive)

/-- A transaction is connected. -/
theorem update {tx : CTransaction} {left : CoinsMap} {undo : CTxUndo}
    (sourced : view.Sourced known nHeight) (marked : markSpent tx view = some (left, undo))
    (named : known tx.hash = tx) (nonzero : tx.hash ≠ 0) :
    (addOutputs tx nHeight left).Sourced known nHeight := by
  have rest := sourced.remains (remains_markSpent marked)
  have others : ∀ txid, txid ≠ tx.hash → addOutputs tx nHeight left txid = left txid :=
    fun _ different => modifyCoins_of_ne _ _ different
  refine ⟨rest.origins.addOutputs named nHeight, ?_, ?_, ?_⟩
  · intro txid alive
    by_cases same : txid = tx.hash
    · rw [same]
      exact nonzero
    · rw [others txid same] at alive
      exact rest.nonzero txid alive
  · intro txid alive
    by_cases same : txid = tx.hash
    · subst same
      constructor
      rintro parent ⟨spends, txin, member, rfl⟩
      rw [named] at spends member
      rcases markSpent_cases marked with ⟨-, done⟩ | ⟨idle, -⟩
      · exact sourced.grounded _ (unspent_of_spendInputs done txin member).isPruned
      · rw [idle] at spends
        cases spends
    · rw [others txid same] at alive
      exact rest.grounded txid alive
  · intro txid alive
    by_cases same : txid = tx.hash
    · subst same
      rw [addOutputs, modifyCoins_self]
      exact le_refl nHeight
    · rw [others txid same] at alive ⊢
      exact rest.heights txid alive

/-- The transactions of a block are connected. -/
theorem replays {txs : List CTransaction} {last : CoinsMap} {undos : List CTxUndo}
    (replays : Replays nHeight txs view undos last) (sourced : view.Sourced known nHeight)
    (named : ∀ tx ∈ txs, known tx.hash = tx ∧ tx.hash ≠ 0) : last.Sourced known nHeight := by
  induction replays with
  | nil => exact sourced
  | cons values marked fresh later ih =>
      rw [List.forall_mem_cons] at named
      exact ih (sourced.update marked named.1.1 named.1.2) named.2

/-- Coins that are alike come from the same transactions. -/
theorem of_mirrors {current : CoinsMap} (sourced : view.Sourced known top)
    (mirrors : Mirrors view current) (stakes : current.StakesKnown known) :
    current.Sourced known top := by
  have entries : ∀ txid, (current txid).isPruned = false → (view txid).isPruned = false ∧
      (current txid).vout = (view txid).vout ∧
      (current txid).fCoinBase = (view txid).fCoinBase ∧
      (current txid).nHeight = (view txid).nHeight := by
    intro txid alive
    rcases mirrors txid with ⟨-, pruned⟩ | ⟨stake, same⟩
    · rw [alive] at pruned
      cases pruned
    · rw [same] at alive ⊢
      exact ⟨alive, rfl, rfl, rfl⟩
  refine ⟨⟨?_, ?_, fun txid _ => stakes txid⟩, ?_, ?_, ?_⟩
  · intro txid n out found full
    obtain ⟨-, vout, -⟩ := entries txid (CCoins.Unspent.isPruned ⟨out, found, full⟩)
    rw [vout] at found
    exact sourced.origins.outputs txid n out found full
  · intro txid alive generated
    obtain ⟨before, -, flag, -⟩ := entries txid alive
    exact sourced.origins.coinBase txid before (flag ▸ generated)
  · intro txid alive
    exact sourced.nonzero txid (entries txid alive).1
  · intro txid alive
    exact sourced.grounded txid (entries txid alive).1
  · intro txid alive
    obtain ⟨before, -, -, height⟩ := entries txid alive
    rw [height]
    exact sourced.heights txid before

end CoinsMap.Sourced

/-! ## The outputs that a block leaves -/

namespace Replays

variable {nHeight : Int} {txs : List CTransaction} {view last : CoinsMap} {undos : List CTxUndo}

/-- What the transactions mark as spent is under the outpoints of their inputs. -/
theorem not_mem_spent {tx : CTransaction} {out : COutPoint}
    (free : out ∉ tx.vin.map CTxIn.prevout) :
    ∀ spent ∈ tx.spent, spent.hash = out.hash → spent.n.toNat ≠ out.n.toNat := by
  intro spent member sameHash sameIndex
  unfold CTransaction.spent at member
  split at member
  · exact free (COutPoint.eq_of_toNat sameHash sameIndex ▸ member)
  · cases member

/-- **An output that no transaction of the block spends** is left, with its entry. -/
theorem unspent_of_free (replays : Replays nHeight txs view undos last) {out : COutPoint}
    (unspent : (view out.hash).Unspent out.n.toNat)
    (free : ∀ tx ∈ txs, out ∉ tx.vin.map CTxIn.prevout) :
    (last out.hash).Unspent out.n.toNat ∧ (view out.hash).Remains (last out.hash) := by
  induction replays with
  | nil => exact ⟨unspent, .refl _⟩
  | @cons tx rest view after _ undo _ values marked fresh later ih =>
      rw [List.forall_mem_cons] at free
      have kept : (after out.hash).Unspent out.n.toNat := by
        rcases markSpent_cases marked with ⟨spends, done⟩ | ⟨-, rfl⟩
        · refine (unspent_spendInputs done out.hash out.n.toNat).mpr ⟨unspent, ?_⟩
          have spent := not_mem_spent free.1
          rwa [CTransaction.spent, if_pos spends] at spent
        · exact unspent
      have different : out.hash ≠ tx.hash := by
        intro same
        rw [← same, kept.isPruned] at fresh
        cases fresh
      have entry : addOutputs tx nHeight after out.hash = after out.hash :=
        modifyCoins_of_ne _ _ different
      rw [entry] at ih
      obtain ⟨still, remains⟩ := ih kept free.2
      exact ⟨still, (remains_markSpent marked out.hash).trans remains⟩

/-- **An output that the block makes** and does not spend is there. -/
theorem unspent_of_made {known : Uint256 → CTransaction}
    (replays : Replays nHeight txs view undos last) {out : COutPoint}
    (made : out.hash ∈ txs.map CTransaction.hash)
    (named : ∀ tx ∈ txs, known tx.hash = tx ∧ tx.hash ≠ 0)
    (free : ∀ tx ∈ txs, out ∉ tx.vin.map CTxIn.prevout) {txout : CTxOut}
    (found : (known out.hash).vout[out.n.toNat]? = some txout) (spendable : txout.Spendable) :
    (last out.hash).Unspent out.n.toNat := by
  induction replays with
  | nil => cases made
  | @cons tx rest view after _ undo _ values marked fresh later ih =>
      rw [List.forall_mem_cons] at free named
      rw [List.map_cons, List.mem_cons] at made
      rcases made with same | made
      · have new : (addOutputs tx nHeight after out.hash).Unspent out.n.toNat := by
          rw [same, addOutputs, modifyCoins_self, CCoins.unspent_cleanup,
            CCoins.unspent_fromTx values]
          rw [same, named.1.1] at found
          exact ⟨txout, found, spendable.2.1⟩
        exact (later.unspent_of_free new free.2).1
      · exact ih made named.2 free.2

/-- An output that the block did not make was there before. -/
theorem unspent_before (replays : Replays nHeight txs view undos last) {txid : Uint256} {n : Nat}
    (unspent : (last txid).Unspent n) (absent : txid ∉ txs.map CTransaction.hash) :
    (view txid).Unspent n := by
  induction replays with
  | nil => exact unspent
  | @cons tx rest view after _ undo _ values marked fresh later ih =>
      rw [List.map_cons, List.mem_cons, not_or] at absent
      obtain ⟨out, found, full⟩ := ih unspent absent.2
      rw [addOutputs, modifyCoins_of_ne _ _ absent.1] at found
      exact ⟨out, (remains_markSpent marked txid).outputs n out found full, full⟩

end Replays

/-! ## The coinstake flag -/

namespace CoinsMap.StakesKnown

variable {known : Uint256 → CTransaction}

theorem replays {nHeight : Int} {txs : List CTransaction} {view last : CoinsMap}
    {undos : List CTxUndo} (replays : Replays nHeight txs view undos last)
    (stakes : view.StakesKnown known) (named : ∀ tx ∈ txs, known tx.hash = tx ∧ tx.hash ≠ 0) :
    last.StakesKnown known := by
  induction replays with
  | nil => exact stakes
  | @cons tx rest view after _ undo _ values marked fresh later ih =>
      rw [List.forall_mem_cons] at named
      apply ih _ named.2
      intro txid generated
      by_cases same : txid = tx.hash
      · subst same
        rw [addOutputs, modifyCoins_self] at generated
        rw [named.1.1]
        exact generated
      · rw [addOutputs, modifyCoins_of_ne _ _ same,
          (remains_markSpent marked txid).fCoinStake] at generated
        exact stakes txid generated

theorem modifyCoins {view : CoinsMap} (stakes : view.StakesKnown known) {txid : Uint256}
    {coins : CCoins} (kept : coins.fCoinStake = true → (view txid).fCoinStake = true) :
    (view.modifyCoins txid coins).StakesKnown known := by
  intro other generated
  by_cases same : other = txid
  · subst same
    rw [modifyCoins_self] at generated
    exact stakes other (kept generated)
  · rw [modifyCoins_of_ne _ _ same] at generated
    exact stakes other generated

/-- Putting an output back never sets the flag. -/
theorem fCoinStake_apply {undo : CTxInUndo} {n : Nat} {coins : CCoins}
    (generated : (undo.apply n coins).1.fCoinStake = true) : coins.fCoinStake = true := by
  unfold CTxInUndo.apply at generated
  split at generated
  rename_i base expected same
  split at same
  · cases same
    cases generated
  · cases same
    exact generated

theorem restoreInputs {records : List (CTxIn × CTxInUndo)} {state : DisconnectState}
    (stakes : state.view.StakesKnown known) :
    (ConnectContext.restoreInputs records state).view.StakesKnown known := by
  induction records with
  | nil => exact stakes
  | cons record rest ih =>
      obtain ⟨txin, undo⟩ := record
      exact ih.modifyCoins fCoinStake_apply

theorem disconnectRound {ctx : ChainContext} {state : ChainState} {vstate : CValidationState}
    {nHeight : Int} {tx : CTransaction} {txundo : Option CTxUndo} {current after : DisconnectState}
    (stakes : current.view.StakesKnown known)
    (went : ChainState.disconnectRound ctx state vstate nHeight tx txundo current =
      (after, .ok ())) : after.view.StakesKnown known := by
  obtain ⟨db, restores⟩ := disconnectRound_eq_ok went
  have removed : (ConnectContext.removeOutputs nHeight tx
      { current with zerocoinDB := db }).view.StakesKnown known :=
    stakes.modifyCoins fun generated => Bool.noConfusion generated
  unfold restoreTx at restores
  split at restores
  · split at restores
    · cases restores
    · split at restores
      · cases restores
      · cases restores
        exact removed.restoreInputs
  · cases restores
    exact removed

theorem disconnectRounds {ctx : ChainContext} {state : ChainState} {vstate : CValidationState}
    {nHeight : Int} {txs : List (CTransaction × Option CTxUndo)} {current after : DisconnectState}
    (stakes : current.view.StakesKnown known)
    (went : ChainState.disconnectRounds ctx state vstate nHeight txs current = (after, .ok ())) :
    after.view.StakesKnown known := by
  induction txs generalizing after with
  | nil =>
      cases went
      exact stakes
  | cons record rest ih =>
      obtain ⟨tx, txundo⟩ := record
      rw [ChainState.disconnectRounds] at went
      rcases middle : ChainState.disconnectRounds ctx state vstate nHeight rest current with
        ⟨between, failure | _⟩
      · rw [middle] at went
        cases went
      · rw [middle] at went
        exact (ih middle).disconnectRound went

end CoinsMap.StakesKnown

/-! ## One call -/

/-- The blocks on disk have the transactions that hashes stand for. -/
def ChainContext.NamesTransactions (node : ChainContext) (known : Uint256 → CTransaction) : Prop :=
  ∀ hash block, node.readBlockFromDisk hash = some block →
    ∀ tx ∈ block.vtx, known tx.hash = tx ∧ tx.hash ≠ 0

/-- **Every block that was ever connected has coins of the chain below it.** -/
structure ChainSourced (known : Uint256 → CTransaction) (node : ChainContext)
    (chain : ChainState) (canon : Uint256 → UtxoView) : Prop where
  recorded : CoinsRecorded node chain canon
  sourced : ∀ hash prev height, Known node chain hash → chain.place hash = some (prev, height) →
    (canon hash).coins.Sourced known height
  stakes : chain.coinsTip.coins.StakesKnown known

namespace ChainSourced

variable {known : Uint256 → CTransaction} {node ctx : ChainContext} {chain after : ChainState}
  {canon : Uint256 → UtxoView}

/-- The block that the next one comes after. -/
theorem exists_tip (sourced : ChainSourced known node chain canon) :
    ∃ tip, chain.mapBlockIndex chain.coinsTip.hashBlock = some tip ∧
      tip.nHeight + 1 = chain.chainActive.length := by
  obtain ⟨prev, place⟩ := sourced.recorded.linked.tip
  obtain ⟨tip, index, same⟩ := Option.map_eq_some_iff.mp place
  rw [Prod.mk.injEq] at same
  exact ⟨tip, index, by omega⟩

/-- The coins of the node. -/
theorem coinsTip (sourced : ChainSourced known node chain canon) :
    chain.coinsTip.coins.Sourced known (chain.chainActive.length - 1) := by
  obtain ⟨prev, place⟩ := sourced.recorded.linked.tip
  exact (sourced.sourced _ _ _ sourced.recorded.tip place).of_mirrors sourced.recorded.mirrors
    sourced.stakes

theorem sameChain (sourced : ChainSourced known node chain canon) (same : SameChain chain after) :
    ChainSourced known node after canon := by
  refine ⟨sourced.recorded.sameChain same, ?_, ?_⟩
  · intro hash prev height connected place
    rw [same.indexes.place] at place
    exact sourced.sourced hash prev height
      (CoinsRecorded.known_of_undoAt same.indexes.undoAt.symm connected) place
  · rw [same.coinsTip]
    exact sourced.stakes

section

variable {vstate : CValidationState} {hash : Uint256} {pindex bookedIndex : ChainIndex}
  {block : CBlock} {effects : BlockEffects} {booked : ChainState}

/-- **A block is connected.** -/
theorem connects (same : node.SameNode ctx) (names : node.NamesTransactions known)
    (sourced : ChainSourced known node chain canon)
    (connects : ConnectsTip ctx chain vstate hash after pindex block effects booked bookedIndex)
    (fresh : OverwritesNone pindex.nHeight block.vtx chain.coinsTip.coins) :
    (∃ canon, ChainSourced known node after canon) ∧
      ∃ undos, Replays pindex.nHeight block.vtx chain.coinsTip.coins undos
        after.coinsTip.coins := by
  have named := names hash block (same.readBlockFromDisk ▸ connects.disk)
  obtain ⟨fScriptChecks, records, rounds, -⟩ := connectTransactions_eq_ok connects.transactions
  have current : Replays pindex.nHeight block.vtx chain.coinsTip.coins records
      after.coinsTip.coins := by
    rw [connects.coinsTip]
    exact Replays.of_connectTxs (ctx.coinsAt chain) (connectTxs_of_connectRounds rounds) fresh
  refine ⟨?_, records, current⟩
  obtain ⟨undos, last, replays, mirrors, alike⟩ :=
    sourced.recorded.exists_replays connects fresh
  let tipView : UtxoView := ⟨last, replays.wellFormed (canon _).wellFormed⟩
  have place := sourced.recorded.place_connects connects
  refine ⟨Function.update canon hash tipView,
    sourced.recorded.connects same connects replays mirrors alike, ?_,
    sourced.stakes.replays current named⟩
  intro other prev height connected found
  rw [connects.place] at found
  by_cases equal : other = hash
  · subst equal
    rw [place] at found
    cases found
    obtain ⟨_, above⟩ := sourced.recorded.linked.tree _ _ _ place
    have before := sourced.sourced _ _ _ sourced.recorded.tip above
    rw [Function.update_self]
    exact (before.mono (Int.sub_le_self _ Int.one_nonneg)).replays replays named
  · rw [Function.update_of_ne equal]
    refine sourced.sourced other prev height ?_ found
    rcases connected with first | ⟨vtxundo, undo⟩
    · exact Or.inl first
    · exact Or.inr ⟨vtxundo, CoinsRecorded.undoAt_connects_of_ne connects equal ▸ undo⟩

end

section

variable {vstate : CValidationState} {hash hashPrev : Uint256} {pindex : ChainIndex}
  {block : CBlock} {vtxundo : List CTxUndo} {current : DisconnectState}

/-- **A block is disconnected.** The outputs that are not its own stay. -/
theorem disconnects (same : node.SameNode ctx) (sourced : ChainSourced known node chain canon)
    (disconnects : DisconnectsTip ctx chain vstate after hash hashPrev pindex block vtxundo
      current) :
    ChainSourced known node after canon ∧
      ∀ txid n, (chain.coinsTip.coins txid).Unspent n →
        txid ∉ block.vtx.map CTransaction.hash → (after.coinsTip.coins txid).Unspent n := by
  have undos : after.undoAt = chain.undoAt := by
    funext other
    rw [undoAt, undoAt, disconnects.mapBlockIndex]
  have place : after.place = chain.place := by
    funext other
    rw [ChainState.place, ChainState.place, disconnects.mapBlockIndex]
  have recordedAfter := sourced.recorded.disconnects same disconnects
  refine ⟨⟨recordedAfter, ?_, ?_⟩, ?_⟩
  · intro other prev height connected found
    rw [place] at found
    exact sourced.sourced other prev height
      (CoinsRecorded.known_of_undoAt undos.symm connected) found
  · rw [disconnects.coinsTip]
    exact sourced.stakes.disconnectRounds disconnects.rounds
  · intro txid n unspent absent
    obtain ⟨records, recorded⟩ := sourced.recorded.recorded_tip same disconnects
    have mirrors := sourced.recorded.mirrors
    rw [← disconnects.bestBlock] at mirrors
    have before := recorded.replays.unspent_before
      (((mirrors txid).unspent_iff n).mp unspent) absent
    have mirrorsAfter := recordedAfter.mirrors
    have tip : after.coinsTip.hashBlock = hashPrev := by rw [disconnects.coinsTip]
    rw [tip] at mirrorsAfter
    exact ((mirrorsAfter txid).unspent_iff n).mpr before

end

end ChainSourced

end GiantCore
