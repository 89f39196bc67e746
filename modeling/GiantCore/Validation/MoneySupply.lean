import GiantCore.Coins.Mirror
import GiantCore.Validation.ZerocoinSupply

/-! # The recorded money supply

Every block index records the money supply: that of the previous block, and what the
loop of `ConnectBlock` adds up. Without zerocoins it is the value of the unspent outputs
of the coin database, together with the unspendable outputs that never come in.

A node may disconnect blocks and connect them or others again, and it undoes a block with
the records that were written when the block was first connected. For this each block that
was ever connected has the coins that its ancestors lead to, and the coins of the node are
at all times alike to those of its tip.
-/

namespace GiantCore

open ChainState CoinsMap

/-- The value of the unspendable outputs of a block. -/
def CBlock.droppedValue (block : CBlock) : CAmount :=
  (block.vtx.map CTransaction.droppedValue).sum

namespace ChainContext

/-- The value of the unspendable outputs of the blocks above the first one, up to a
height. The outputs of the first block never come in. -/
def droppedUpTo (node : ChainContext) (state : ChainState) (height : Nat) : CAmount :=
  (((state.chainActive.drop 1).take height).map fun hash =>
    (node.readBlockFromDisk hash).elim 0 CBlock.droppedValue).sum

/-- **The supply of the tip is the total of the unspent outputs**, and of those that were
dropped. -/
def SupplyIsTotal (node : ChainContext) (state : ChainState) : Prop :=
  ∃ hash pindex, state.chainActive.getLast? = some hash ∧ state.mapBlockIndex hash = some pindex ∧
    pindex.nMoneySupply = state.coinsTip.coins.unspentTotal +
      node.droppedUpTo state (state.chainActive.length - 1)

/-- **The calls of such chains.** A block that is to be connected has no zerocoins and
overwrites no entry that is not spent, and its height is not the one where the supply is
recalculated. -/
def OrdinaryCall (node : ChainContext) (state : ChainState) : TipCall → Prop
  | .connectTip ctx _ hash _ => node.SameNode ctx ∧
      ∀ pindex block, state.mapBlockIndex hash = some pindex →
        node.readBlockFromDisk hash = some block →
        pindex.hashPrev = state.chainActive.getLast? →
        block.NoZerocoins ∧ OverwritesNone pindex.nHeight block.vtx state.coinsTip.coins ∧
          pindex.nHeight ≠ node.params.nBlockRecalculateAccumulators + 1
  | .disconnectTip ctx _ => node.SameNode ctx

end ChainContext

namespace ChainState

/-! ## Disconnecting from coins that are alike -/

section

variable {ctx : ChainContext} {state : ChainState} {vstate : CValidationState} {nHeight : Int}

/-- The coins after one round of the loop of `DisconnectBlock`. -/
theorem disconnectRound_eq_ok {tx : CTransaction} {txundo : Option CTxUndo}
    {current after : DisconnectState}
    (went : disconnectRound ctx state vstate nHeight tx txundo current = (after, .ok ())) :
    ∃ db, restoreTx vstate tx txundo (ConnectContext.removeOutputs nHeight tx
      { current with zerocoinDB := db }) = .ok after := by
  unfold disconnectRound at went
  dsimp only at went
  split at went
  · cases went
  · split at went
    · cases went
    · rename_i restored done
      cases went
      exact ⟨_, done⟩

/-- A round never turns the flag back on. -/
theorem fClean_disconnectRound {tx : CTransaction} {txundo : Option CTxUndo}
    {current after : DisconnectState}
    (went : disconnectRound ctx state vstate nHeight tx txundo current = (after, .ok ()))
    (clean : after.fClean = true) : current.fClean = true := by
  obtain ⟨db, restores⟩ := disconnectRound_eq_ok went
  unfold restoreTx at restores
  split at restores
  · split at restores
    · cases restores
    · split at restores
      · cases restores
      · cases restores
        have removed := ConnectContext.fClean_restoreInputs _ _ clean
        exact (Bool.and_eq_true_iff.mp removed).1
  · cases restores
    exact (Bool.and_eq_true_iff.mp clean).1

/-- One round takes a transaction back, on coins that are alike. -/
theorem mirrors_disconnectRound {tx : CTransaction} {txundo : Option CTxUndo}
    {current after : DisconnectState} {view left : CoinsMap} {undo : CTxUndo}
    (formed : view.WellFormed) (marked : markSpent tx view = some (left, undo))
    (fresh : (left tx.hash).isPruned = true)
    (mirrors : Mirrors (addOutputs tx nHeight left) current.view)
    (alike : ∀ found, txundo = some found → undo.Alike found)
    (went : disconnectRound ctx state vstate nHeight tx txundo current = (after, .ok ()))
    (clean : after.fClean = true) : Mirrors view after.view := by
  obtain ⟨db, restores⟩ := disconnectRound_eq_ok went
  have removed : Mirrors left (ConnectContext.removeOutputs nHeight tx
    { current with zerocoinDB := db }).view := Mirrors.removeOutputs fresh mirrors
  unfold restoreTx at restores
  rcases markSpent_cases marked with ⟨spends, done⟩ | ⟨spends, rfl⟩
  · rw [if_pos spends] at restores
    split at restores
    · cases restores
    · rename_i found
      split at restores
      · cases restores
      · cases restores
        exact removed.restoreInputs formed done (alike found rfl) clean
  · rw [if_neg (by rw [spends]; exact Bool.false_ne_true)] at restores
    cases restores
    exact removed

/-- **The loop of `DisconnectBlock`** leads from coins that are alike to coins that are
alike. -/
theorem mirrors_disconnectRounds {txs : List CTransaction} {view last : CoinsMap}
    {undos : List CTxUndo} {records : List (Option CTxUndo)}
    (replays : Replays nHeight txs view undos last) (formed : view.WellFormed)
    (alike : List.Forall₂ (fun undo record => ∀ found, record = some found →
      CTxUndo.Alike undo found) undos records)
    {current after : DisconnectState} (mirrors : Mirrors last current.view)
    (went : disconnectRounds ctx state vstate nHeight (txs.zip records) current =
      (after, .ok ())) (clean : after.fClean = true) : Mirrors view after.view := by
  induction replays generalizing records after with
  | nil =>
      cases went
      exact mirrors
  | @cons tx rest view left _ undo others values marked fresh later ih =>
      cases alike with
      | @cons _ record _ records here others =>
          rw [List.zip_cons_cons, disconnectRounds] at went
          rcases middle : disconnectRounds ctx state vstate nHeight (rest.zip records) current with
            ⟨between, failure | _⟩
          · rw [middle] at went
            cases went
          · rw [middle] at went
            have formedNext : (addOutputs tx nHeight left).WellFormed :=
              (formed.markSpent marked).modifyCoins _ (CCoins.wellFormed_fromTx nHeight values)
            have before := ih formedNext others mirrors middle (fClean_disconnectRound went clean)
            exact mirrors_disconnectRound formed marked fresh before here went clean

end

/-! ## The coins of every block that was connected -/

/-- The undo records of a block on disk. -/
def undoAt (state : ChainState) (hash : Uint256) : Option (List CTxUndo) :=
  (state.mapBlockIndex hash).bind ChainIndex.vtxundo

/-- The block is the first one or was connected once. -/
def Known (node : ChainContext) (state : ChainState) (hash : Uint256) : Prop :=
  hash = node.hashGenesisBlock ∨ ∃ vtxundo, state.undoAt hash = some vtxundo

/-- The block was connected to the coins of its parent. The records on disk are the ones
of that time, but for the coinstake flags. -/
structure Recorded (node : ChainContext) (state : ChainState) (canon : Uint256 → UtxoView)
    (hash : Uint256) (vtxundo : List CTxUndo) (block : CBlock) (hashPrev : Uint256)
    (nHeight : Int) (undos : List CTxUndo) : Prop where
  disk : node.readBlockFromDisk hash = some block
  place : state.place hash = some (some hashPrev, nHeight)
  parent : Known node state hashPrev
  replays : Replays nHeight block.vtx (canon hashPrev).coins undos (canon hash).coins
  alike : List.Forall₂ CTxUndo.Alike undos.tail vtxundo

/-- **Every block that was ever connected has its coins**, and those of the node are alike
to the ones of its tip. -/
structure CoinsRecorded (node : ChainContext) (state : ChainState) (canon : Uint256 → UtxoView) :
    Prop where
  linked : Linked node.hashGenesisBlock state
  tip : Known node state state.coinsTip.hashBlock
  mirrors : Mirrors (canon state.coinsTip.hashBlock).coins state.coinsTip.coins
  recorded : ∀ hash vtxundo, state.undoAt hash = some vtxundo →
    ∃ block hashPrev nHeight undos,
      Recorded node state canon hash vtxundo block hashPrev nHeight undos

/-- The records are those of the same blocks. -/
theorem SameIndexes.undoAt {before after : ChainState} (same : SameIndexes before after) :
    after.undoAt = before.undoAt := by
  funext hash
  unfold ChainState.undoAt
  cases index : before.mapBlockIndex hash with
  | none => rw [same.missing hash index]
  | some pindex =>
      obtain ⟨found, there, sameBlock⟩ := same.found hash pindex index
      rw [there]
      exact sameBlock.vtxundo

namespace CoinsRecorded

variable {node ctx : ChainContext} {state after : ChainState} {canon : Uint256 → UtxoView}

theorem known_of_undoAt (undos : after.undoAt = state.undoAt) {hash : Uint256}
    (known : Known node state hash) : Known node after hash := by
  unfold Known at known ⊢
  rwa [undos]

/-- No block but the first one has been connected. -/
theorem of_genesis (linked : Linked node.hashGenesisBlock state)
    (atGenesis : state.chainActive = [node.hashGenesisBlock])
    (noCoins : state.coinsTip.coins = fun _ => CCoins.clear)
    (unwritten : ∀ hash pindex, state.mapBlockIndex hash = some pindex → pindex.vtxundo = none) :
    CoinsRecorded node state fun _ => ⟨fun _ => CCoins.clear,
      fun _ => CCoins.wellFormed_clear⟩ := by
  refine ⟨linked, ?_, ?_, ?_⟩
  · have last := linked.bestBlock
    rw [atGenesis] at last
    exact Or.inl (Option.some.inj last).symm
  · rw [noCoins]
    exact Mirrors.refl _
  · intro hash vtxundo undo
    obtain ⟨pindex, index, found⟩ := Option.bind_eq_some_iff.mp undo
    rw [unwritten hash pindex index] at found
    cases found

/-- The coins and the chain are as before. -/
theorem sameChain (coins : CoinsRecorded node state canon) (same : SameChain state after) :
    CoinsRecorded node after canon := by
  have undos := same.indexes.undoAt
  refine ⟨coins.linked.sameChain same, ?_, ?_, ?_⟩
  · rw [same.coinsTip]
    exact known_of_undoAt undos coins.tip
  · rw [same.coinsTip]
    exact coins.mirrors
  · intro hash vtxundo found
    rw [undos] at found
    obtain ⟨block, hashPrev, nHeight, records, recorded⟩ := coins.recorded hash vtxundo found
    refine ⟨block, hashPrev, nHeight, records, recorded.disk, ?_,
      known_of_undoAt undos recorded.parent, recorded.replays, recorded.alike⟩
    rw [same.indexes.place]
    exact recorded.place

section

variable {vstate : CValidationState} {hash hashPrev : Uint256} {pindex : ChainIndex}
  {block : CBlock} {vtxundo : List CTxUndo} {current : DisconnectState}

/-- The tip that is disconnected was recorded. -/
theorem recorded_tip (same : node.SameNode ctx) (coins : CoinsRecorded node state canon)
    (disconnects : DisconnectsTip ctx state vstate after hash hashPrev pindex block vtxundo
      current) :
    ∃ undos, Recorded node state canon hash vtxundo block hashPrev pindex.nHeight undos := by
  have undo : state.undoAt hash = some vtxundo := by
    rw [undoAt, disconnects.index]
    exact disconnects.undoable
  obtain ⟨found, prev, nHeight, undos, recorded⟩ := coins.recorded hash vtxundo undo
  have sameBlock : found = block := by
    have disk := disconnects.disk
    rw [same.readBlockFromDisk, recorded.disk] at disk
    exact Option.some.inj disk
  have samePrev : prev = hashPrev ∧ nHeight = pindex.nHeight := by
    have place := recorded.place
    rw [place_eq disconnects.index, disconnects.parent] at place
    simp only [Option.some.injEq, Prod.mk.injEq] at place
    exact ⟨place.1.symm, place.2.symm⟩
  obtain ⟨rfl, rfl⟩ := samePrev
  subst sameBlock
  exact ⟨undos, recorded⟩

/-- The tip is disconnected. Its records lead back to the coins of its parent. -/
theorem disconnects (same : node.SameNode ctx) (coins : CoinsRecorded node state canon)
    (disconnects : DisconnectsTip ctx state vstate after hash hashPrev pindex block vtxundo
      current) : CoinsRecorded node after canon := by
  have sameUndos : after.undoAt = state.undoAt := by
    funext other
    rw [undoAt, undoAt, disconnects.mapBlockIndex]
  have samePlace : after.place = state.place := by
    funext other
    rw [ChainState.place, ChainState.place, disconnects.mapBlockIndex]
  obtain ⟨undos, recorded⟩ := coins.recorded_tip same disconnects
  refine ⟨disconnects.linked coins.linked, ?_, ?_, ?_⟩
  · rw [disconnects.coinsTip]
    exact known_of_undoAt sameUndos recorded.parent
  · rw [disconnects.coinsTip]
    -- the first transaction has no record
    have records : List.Forall₂ (fun undo record => ∀ found, record = some found →
        CTxUndo.Alike undo found) undos (none :: vtxundo.map some) := by
      have lengths := disconnects.length
      have alike := recorded.alike
      cases undos with
      | nil =>
          have count := recorded.replays.length_undos
          rw [← count] at lengths
          cases lengths
      | cons first rest =>
          have unrecorded : ∀ found, none = some found → CTxUndo.Alike first found := by
            intro found absent
            cases absent
          apply List.Forall₂.cons unrecorded
          rw [List.forall₂_map_right_iff]
          refine alike.imp ?_
          rintro undo found alike _ ⟨⟩
          exact alike
    have mirrors := coins.mirrors
    rw [← disconnects.bestBlock] at mirrors
    exact mirrors_disconnectRounds recorded.replays (canon hashPrev).wellFormed records mirrors
      disconnects.rounds disconnects.clean
  · intro other records there
    rw [sameUndos] at there
    obtain ⟨block, hashPrev, nHeight, undos, before⟩ := coins.recorded other records there
    exact ⟨block, hashPrev, nHeight, undos, before.disk, samePlace ▸ before.place,
      known_of_undoAt sameUndos before.parent, before.replays, before.alike⟩

end

section

variable {vstate : CValidationState} {hash : Uint256} {pindex bookedIndex : ChainIndex}
  {block : CBlock} {effects : BlockEffects} {booked : ChainState}

/-- The coins that the ancestors of a new tip and the tip itself lead to. -/
theorem exists_replays (coins : CoinsRecorded node state canon)
    (connects : ConnectsTip ctx state vstate hash after pindex block effects booked bookedIndex)
    (fresh : OverwritesNone pindex.nHeight block.vtx state.coinsTip.coins) :
    ∃ undos last, Replays pindex.nHeight block.vtx (canon state.coinsTip.hashBlock).coins undos
        last ∧ Mirrors last after.coinsTip.coins ∧
      List.Forall₂ CTxUndo.Alike undos.tail effects.vtxundo := by
  obtain ⟨fScriptChecks, records, rounds, vtxundo⟩ :=
    connectTransactions_eq_ok connects.transactions
  have loop := connectTxs_of_connectRounds rounds
  obtain ⟨undos, last, replays, mirrors, alike⟩ :=
    (Replays.of_connectTxs (ctx.coinsAt state) loop fresh).of_mirrors coins.mirrors
  refine ⟨undos, last, replays, ?_, ?_⟩
  · rw [connects.coinsTip]
    exact mirrors
  · rw [vtxundo]
    cases alike with
    | nil => exact .nil
    | cons _ others => exact others

/-- The records of a new tip are written once. -/
theorem undoAt_connects
    (connects : ConnectsTip ctx state vstate hash after pindex block effects booked bookedIndex) :
    after.undoAt hash = some ((state.undoAt hash).getD effects.vtxundo) := by
  obtain ⟨-, -, sameBlock⟩ := connects.booked_indexes
  rw [undoAt, undoAt, connects.entry, connects.index, Option.bind_some, Option.bind_some,
    sameBlock.vtxundo]

theorem undoAt_connects_of_ne
    (connects : ConnectsTip ctx state vstate hash after pindex block effects booked bookedIndex)
    {other : Uint256} (different : other ≠ hash) : after.undoAt other = state.undoAt other := by
  obtain ⟨booking, -, -⟩ := connects.booked_indexes
  rw [← booking.indexes.undoAt, undoAt, undoAt, connects.others other different]

/-- Blocks that were connected stay so. -/
theorem known_connects
    (connects : ConnectsTip ctx state vstate hash after pindex block effects booked bookedIndex)
    {other : Uint256} (known : Known node state other) : Known node after other := by
  rcases known with first | ⟨vtxundo, undo⟩
  · exact Or.inl first
  · by_cases equal : other = hash
    · subst equal
      exact Or.inr ⟨_, undoAt_connects connects⟩
    · exact Or.inr ⟨vtxundo, (undoAt_connects_of_ne connects equal).trans undo⟩

/-- What the new tip is on top of. -/
theorem place_connects (coins : CoinsRecorded node state canon)
    (connects : ConnectsTip ctx state vstate hash after pindex block effects booked bookedIndex) :
    state.place hash = some (some state.coinsTip.hashBlock, pindex.nHeight) := by
  rw [connects.place_tip, coins.linked.bestBlock]

/-- A tip that was connected before has its coins. -/
theorem coins_of_known (same : node.SameNode ctx) (coins : CoinsRecorded node state canon)
    (connects : ConnectsTip ctx state vstate hash after pindex block effects booked bookedIndex)
    {undos vtxundo : List CTxUndo} {last : CoinsMap}
    (replays : Replays pindex.nHeight block.vtx (canon state.coinsTip.hashBlock).coins undos last)
    (undo : state.undoAt hash = some vtxundo) :
    (canon hash).coins = last ∧ List.Forall₂ CTxUndo.Alike undos.tail vtxundo := by
  obtain ⟨found, hashPrev, nHeight, records, recorded⟩ := coins.recorded hash vtxundo undo
  have disk := connects.disk
  rw [same.readBlockFromDisk, recorded.disk] at disk
  cases disk
  have place := recorded.place
  rw [coins.place_connects connects] at place
  cases place
  obtain ⟨rfl, same⟩ := replays.unique recorded.replays
  exact ⟨same, recorded.alike⟩

/-- The coins of the block are put beside those of the blocks before it. -/
theorem agree_connects (same : node.SameNode ctx) (coins : CoinsRecorded node state canon)
    (connects : ConnectsTip ctx state vstate hash after pindex block effects booked bookedIndex)
    {undos : List CTxUndo} {tipView : UtxoView}
    (replays : Replays pindex.nHeight block.vtx (canon state.coinsTip.hashBlock).coins undos
      tipView.coins) {other : Uint256} (known : Known node state other) :
    (Function.update canon hash tipView other).coins = (canon other).coins := by
  by_cases equal : other = hash
  · subst equal
    rw [Function.update_self]
    rcases known with first | ⟨vtxundo, undo⟩
    · have orphan := (coins.linked.root _ _ _ (coins.place_connects connects)).mpr first
      cases orphan
    · exact (coins.coins_of_known same connects replays undo).1.symm
  · rw [Function.update_of_ne equal]

/-- **A block is connected**, for the first time or again. -/
theorem connects (same : node.SameNode ctx) (coins : CoinsRecorded node state canon)
    (connects : ConnectsTip ctx state vstate hash after pindex block effects booked bookedIndex)
    {undos : List CTxUndo} {tipView : UtxoView}
    (replays : Replays pindex.nHeight block.vtx (canon state.coinsTip.hashBlock).coins undos
      tipView.coins) (mirrors : Mirrors tipView.coins after.coinsTip.coins)
    (alike : List.Forall₂ CTxUndo.Alike undos.tail effects.vtxundo) :
    CoinsRecorded node after (Function.update canon hash tipView) := by
  have place := coins.place_connects connects
  have disk : node.readBlockFromDisk hash = some block := same.readBlockFromDisk ▸ connects.disk
  have agree : ∀ other, Known node state other →
      (Function.update canon hash tipView other).coins = (canon other).coins :=
    fun _ known => coins.agree_connects same connects replays known
  refine ⟨connects.linked coins.linked, ?_, ?_, ?_⟩
  · rw [connects.coinsTip]
    exact Or.inr ⟨_, undoAt_connects connects⟩
  · have tip : after.coinsTip.hashBlock = hash := by rw [connects.coinsTip]
    rw [tip, Function.update_self]
    exact mirrors
  · intro other vtxundo undo
    by_cases equal : other = hash
    · subst equal
      rw [undoAt_connects connects, Option.some.injEq] at undo
      refine ⟨block, _, _, undos, disk, connects.place ▸ place,
        known_connects connects coins.tip, ?_, ?_⟩
      · rw [agree _ coins.tip, Function.update_self]
        exact replays
      · rw [← undo]
        cases before : state.undoAt other with
        | none => exact alike
        | some records => exact (coins.coins_of_known same connects replays before).2
    · rw [undoAt_connects_of_ne connects equal] at undo
      obtain ⟨found, hashPrev, nHeight, records, recorded⟩ := coins.recorded other vtxundo undo
      refine ⟨found, hashPrev, nHeight, records, recorded.disk, connects.place ▸ recorded.place,
        known_connects connects recorded.parent, ?_, recorded.alike⟩
      rw [agree _ recorded.parent, agree _ (Or.inr ⟨vtxundo, undo⟩)]
      exact recorded.replays

end

end CoinsRecorded

/-- **The invariant of a run.** Every block that was ever connected has its coins, and the
supply of the blocks of the chain is the total of theirs. -/
structure Ledger (node : ChainContext) (state : ChainState) (canon : Uint256 → UtxoView) :
    Prop where
  linked : Linked node.hashGenesisBlock state
  tip : Known node state state.coinsTip.hashBlock
  mirrors : Mirrors (canon state.coinsTip.hashBlock).coins state.coinsTip.coins
  recorded : ∀ hash vtxundo, state.undoAt hash = some vtxundo →
    ∃ block hashPrev nHeight undos,
      Recorded node state canon hash vtxundo block hashPrev nHeight undos
  supply : ∀ i hash pindex, state.chainActive[i]? = some hash →
    state.mapBlockIndex hash = some pindex →
    pindex.nMoneySupply = (canon hash).coins.unspentTotal + node.droppedUpTo state i

namespace Ledger

variable {node ctx : ChainContext} {state after : ChainState} {canon : Uint256 → UtxoView}

theorem coinsRecorded (ledger : Ledger node state canon) : CoinsRecorded node state canon :=
  ⟨ledger.linked, ledger.tip, ledger.mirrors, ledger.recorded⟩

theorem of_coinsRecorded (coins : CoinsRecorded node state canon)
    (supply : ∀ i hash pindex, state.chainActive[i]? = some hash →
      state.mapBlockIndex hash = some pindex →
      pindex.nMoneySupply = (canon hash).coins.unspentTotal + node.droppedUpTo state i) :
    Ledger node state canon :=
  ⟨coins.linked, coins.tip, coins.mirrors, coins.recorded, supply⟩

theorem supplyIsTotal (ledger : Ledger node state canon) : node.SupplyIsTotal state := by
  obtain ⟨_, place⟩ := ledger.linked.tip
  obtain ⟨pindex, index, -⟩ := Option.map_eq_some_iff.mp place
  have last := ledger.linked.bestBlock
  refine ⟨_, pindex, last, index, ?_⟩
  rw [List.getLast?_eq_getElem?] at last
  rw [ledger.supply _ _ pindex last index, ledger.mirrors.unspentTotal_eq]

theorem droppedUpTo_of_take {i : Nat}
    (same : after.chainActive.take (i + 1) = state.chainActive.take (i + 1)) :
    node.droppedUpTo after i = node.droppedUpTo state i := by
  have shifted : ∀ hashes : List Uint256,
      (hashes.drop 1).take i = (hashes.take (i + 1)).drop 1 := by
    intro hashes
    rw [List.drop_take, Nat.add_sub_cancel]
  unfold ChainContext.droppedUpTo
  rw [shifted, shifted, same]

/-- The coins and the chain are as before, and so is every entry of the chain. -/
theorem sameChain (ledger : Ledger node state canon) (same : SameChain state after)
    (entries : ∀ hash ∈ state.chainActive, after.mapBlockIndex hash = state.mapBlockIndex hash) :
    Ledger node after canon := by
  apply of_coinsRecorded (ledger.coinsRecorded.sameChain same)
  intro i hash pindex here index
  rw [same.chainActive] at here
  rw [entries hash (List.mem_of_getElem? here)] at index
  rw [droppedUpTo_of_take (congrArg _ same.chainActive)]
  exact ledger.supply i hash pindex here index

/-- The tip is disconnected. -/
theorem disconnects (same : node.SameNode ctx) (ledger : Ledger node state canon)
    {vstate : CValidationState} {hash hashPrev : Uint256} {pindex : ChainIndex} {block : CBlock}
    {vtxundo : List CTxUndo} {current : DisconnectState}
    (disconnects : DisconnectsTip ctx state vstate after hash hashPrev pindex block vtxundo
      current) : Ledger node after canon := by
  apply of_coinsRecorded (ledger.coinsRecorded.disconnects same disconnects)
  intro i other entry here index
  rw [disconnects.chainActive, List.getElem?_dropLast] at here
  rw [disconnects.mapBlockIndex] at index
  split at here
  · have prefixes : after.chainActive.take (i + 1) = state.chainActive.take (i + 1) := by
      rw [disconnects.chainActive, List.dropLast_eq_take, List.take_take, min_eq_left (by omega)]
    rw [droppedUpTo_of_take prefixes]
    exact ledger.supply i other entry here index
  · cases here

section

variable {vstate : CValidationState} {hash : Uint256} {pindex bookedIndex : ChainIndex}
  {block : CBlock} {effects : BlockEffects} {booked : ChainState}

/-- How the total changes with a new tip. -/
theorem unspentTotal_connects (ledger : Ledger node state canon)
    (connects : ConnectsTip ctx state vstate hash after pindex block effects booked bookedIndex)
    (ordinary : block.NoZerocoins)
    (fresh : OverwritesNone pindex.nHeight block.vtx state.coinsTip.coins) {last : CoinsMap}
    (mirrors : Mirrors last after.coinsTip.coins) :
    last.unspentTotal = (canon state.coinsTip.hashBlock).coins.unspentTotal + effects.net -
      block.droppedValue := by
  obtain ⟨fScriptChecks, records, rounds, vtxundo⟩ :=
    connectTransactions_eq_ok connects.transactions
  have loop := connectTxs_of_connectRounds rounds
  have spends : ∀ tx ∈ block.vtx, tx.hasZerocoinSpendInputs = false := by
    intro tx member
    exact (Bool.or_eq_false_iff.mp (ordinary tx member)).1
  have total := (ctx.coinsAt state).unspentTotal_connectTxs spends loop fresh
  rw [connects.coinsTip] at mirrors
  rw [mirrors.unspentTotal_eq, ledger.mirrors.unspentTotal_eq] at total
  have net : effects.net = effects.loop.connect.nValueOut - effects.loop.connect.nValueIn := rfl
  rw [net, CBlock.droppedValue]
  linarith

/-- One block more. -/
theorem droppedUpTo_concat (chain : after.chainActive = state.chainActive ++ [hash])
    (nonempty : state.chainActive ≠ []) (disk : node.readBlockFromDisk hash = some block) :
    node.droppedUpTo after state.chainActive.length =
      node.droppedUpTo state (state.chainActive.length - 1) + block.droppedValue := by
  have positive := List.length_pos_of_ne_nil nonempty
  have all : after.chainActive.drop 1 = state.chainActive.drop 1 ++ [hash] := by
    rw [chain, List.drop_append_of_le_length positive]
  have long : (state.chainActive.drop 1 ++ [hash]).length ≤ state.chainActive.length := by
    rw [List.length_append, List.length_drop, List.length_singleton]
    omega
  have whole : (state.chainActive.drop 1).length ≤ state.chainActive.length - 1 := by
    rw [List.length_drop]
  unfold ChainContext.droppedUpTo
  rw [all, List.take_of_length_le long, List.take_of_length_le whole, List.map_append,
    List.sum_append]
  simp [disk]

/-- **The supply that is recorded for a new tip.** -/
theorem nMoneySupply_connects (ledger : Ledger node state canon)
    (connects : ConnectsTip ctx state vstate hash after pindex block effects booked bookedIndex)
    (quiet : pindex.nHeight ≠ ctx.params.nBlockRecalculateAccumulators + 1)
    (disk : node.readBlockFromDisk hash = some block) {last : CoinsMap}
    (total : last.unspentTotal = (canon state.coinsTip.hashBlock).coins.unspentTotal +
      effects.net - block.droppedValue) {entry : ChainIndex}
    (index : after.mapBlockIndex hash = some entry) :
    entry.nMoneySupply =
      last.unspentTotal + node.droppedUpTo after state.chainActive.length := by
  obtain ⟨-, updated, -, bookedEq⟩ := bookSupply_eq_ok quiet connects.index connects.books
  obtain ⟨tip, found, parent⟩ := ledger.linked.pprev_of_parent connects.parent
  have tipHere := ledger.linked.bestBlock
  rw [List.getLast?_eq_getElem?] at tipHere
  have before := ledger.supply _ _ tip tipHere found
  rw [connects.entry] at index
  cases index
  have added : bookedIndex.nMoneySupply = tip.nMoneySupply + effects.net := by
    rw [bookedEq, parent]
    rfl
  rw [added, before, total, droppedUpTo_concat connects.chainActive ledger.linked.nonempty disk]
  ring

/-- **A block is connected.** -/
theorem connects (same : node.SameNode ctx) (ledger : Ledger node state canon)
    (connects : ConnectsTip ctx state vstate hash after pindex block effects booked bookedIndex)
    (ordinary : block.NoZerocoins)
    (fresh : OverwritesNone pindex.nHeight block.vtx state.coinsTip.coins)
    (quiet : pindex.nHeight ≠ ctx.params.nBlockRecalculateAccumulators + 1) :
    ∃ canon, Ledger node after canon := by
  obtain ⟨undos, last, replays, mirrors, alike⟩ :=
    ledger.coinsRecorded.exists_replays connects fresh
  have total := ledger.unspentTotal_connects connects ordinary fresh mirrors
  obtain ⟨rfl, updated, -, bookedEq⟩ := bookSupply_eq_ok quiet connects.index connects.books
  have disk : node.readBlockFromDisk hash = some block := same.readBlockFromDisk ▸ connects.disk
  have absent := ledger.linked.not_mem_of_parent connects.place_tip
  let tipView : UtxoView := ⟨last, replays.wellFormed (canon _).wellFormed⟩
  have recorded : CoinsRecorded node after (Function.update canon hash tipView) :=
    ledger.coinsRecorded.connects same connects replays mirrors alike
  refine ⟨_, of_coinsRecorded recorded ?_⟩
  intro i other entry found index
  rw [connects.chainActive] at found
  rcases Nat.lt_or_ge i state.chainActive.length with old | new
  · rw [List.getElem?_append_left old] at found
    have notNew : other ≠ hash := fun equal => absent (equal ▸ List.mem_of_getElem? found)
    have prefixes : after.chainActive.take (i + 1) = state.chainActive.take (i + 1) := by
      rw [connects.chainActive]
      exact List.take_append_of_le_length (by omega)
    have kept : after.mapBlockIndex other = state.mapBlockIndex other :=
      (connects.others other notNew).trans (setIndex_of_ne _ _ notNew)
    rw [kept] at index
    rw [droppedUpTo_of_take prefixes, Function.update_of_ne notNew]
    exact ledger.supply i other entry found index
  · rw [List.getElem?_append_right new] at found
    obtain ⟨bound, equal⟩ := List.getElem?_eq_some_iff.mp found
    simp only [List.length_singleton, Nat.lt_one_iff] at bound
    simp only [bound, List.getElem_cons_zero] at equal
    subst equal
    have height : i = state.chainActive.length := by omega
    rw [height, Function.update_self]
    exact ledger.nMoneySupply_connects connects quiet disk total index

end

/-- **One call** keeps the invariant. -/
theorem call (honest : node.HonestDisk) {action : TipCall}
    (ordinary : node.OrdinaryCall state action) (ledger : Ledger node state canon) :
    ∃ canon, Ledger node (state.call action) canon := by
  have same : node.SameNode action.ctx := by
    cases action with
    | connectTip ctx vstate hash fAlreadyChecked => exact ordinary.1
    | disconnectTip ctx vstate => exact ordinary
  have effect := callEffect ledger.linked honest same
  generalize state.call action = after at effect ⊢
  cases effect with
  | unchanged => exact ⟨canon, ledger⟩
  | refused index disk parent refuses =>
      obtain ⟨-, -, quiet⟩ := ordinary.2 _ _ index (same.readBlockFromDisk ▸ disk) parent
      refine ⟨canon, ledger.sameChain refuses.toSameChain ?_⟩
      intro other member
      apply refuses.others (same.params ▸ quiet)
      rintro rfl
      exact ledger.linked.not_mem_of_parent (parent ▸ place_eq index) member
  | connected connects =>
      obtain ⟨none, fresh, quiet⟩ :=
        ordinary.2 _ _ connects.index (same.readBlockFromDisk ▸ connects.disk) connects.parent
      exact ledger.connects same connects none fresh (same.params ▸ quiet)
  | broken db store fails left =>
      subst left
      exact ⟨canon, ledger.sameChain ⟨.of_eq rfl, rfl, rfl, rfl⟩ fun _ _ => rfl⟩
  | disconnected disconnects => exact ⟨canon, ledger.disconnects same disconnects⟩

end Ledger

end ChainState

/-- **The recorded money supply is the total of the unspent outputs.** In every state of a
run from the first block, with any disconnections, connections and failed calls of blocks
without zerocoins, the supply of the tip is the value of all unspent outputs of the coin
database and of the unspendable ones that were dropped. -/
theorem supplyIsTotal_of_run (node : ChainContext) (start : ChainState)
    (actions : List TipCall) (linked : Linked node.hashGenesisBlock start)
    (atGenesis : start.chainActive = [node.hashGenesisBlock])
    (noCoins : start.coinsTip.coins = fun _ => CCoins.clear)
    (unbooked : ∀ pindex, start.mapBlockIndex node.hashGenesisBlock = some pindex →
      pindex.nMoneySupply = 0)
    (unwritten : ∀ hash pindex, start.mapBlockIndex hash = some pindex → pindex.vtxundo = none)
    (honest : node.HonestDisk)
    (ordinary : Foundation.Run.AllSteps ChainState.call node.OrdinaryCall start actions) :
    ∀ state ∈ Foundation.Run.states ChainState.call start actions, node.SupplyIsTotal state := by
  have initial : ∃ canon, Ledger node start canon := by
    refine ⟨_, .of_coinsRecorded (.of_genesis linked atGenesis noCoins unwritten) ?_⟩
    intro i hash pindex here index
    have dropped : node.droppedUpTo start i = 0 := by
      rw [ChainContext.droppedUpTo, atGenesis]
      simp
    rw [atGenesis] at here
    have first := List.mem_singleton.mp (List.mem_of_getElem? here)
    subst first
    rw [unbooked pindex index, dropped, unspentTotal_clear]
    rfl
  have keeps : ∀ state action, node.OrdinaryCall state action →
      (∃ canon, Ledger node state canon) → ∃ canon, Ledger node (state.call action) canon := by
    intro state action ordinary ⟨_, ledger⟩
    exact ledger.call honest ordinary
  intro state member
  obtain ⟨_, ledger⟩ :=
    Foundation.Run.invariant_states_of_steps keeps initial ordinary state member
  exact ledger.supplyIsTotal

/-! ## A block that is connected twice -/

/-- A block with an unspendable output beside a spendable one. -/
def burningBlock (nHeight : Nat) : CBlock :=
  { blockAt (BitVec.ofNat 256 (100 + nHeight)) (BitVec.ofNat 256 (99 + nHeight))
      [{ regtestCoinBase 2 with
          hash := BitVec.ofNat 256 (1000 + nHeight)
          vout := [⟨COIN, [0x51], -10⟩, ⟨COIN, [0x6a], -10⟩] }] with
    nVersion := 5 }

/-- It is connected, disconnected and connected again. -/
def burningRun : List TipCall :=
  [.connectTip (.regtest burningBlock) {} 101 false, .disconnectTip (.regtest burningBlock) {},
    .connectTip (.regtest burningBlock) {} 101 false]

/-- The conditions on a block, where they can be evaluated. -/
theorem ordinaryCall_connectTip {node ctx : ChainContext} {state : ChainState}
    {vstate : CValidationState} {hash : Uint256} {fAlreadyChecked : Bool}
    (same : node.SameNode ctx)
    (holds : ∀ pindex ∈ state.mapBlockIndex hash, ∀ block ∈ node.readBlockFromDisk hash,
      block.NoZerocoins ∧ OverwritesNone pindex.nHeight block.vtx state.coinsTip.coins ∧
        pindex.nHeight ≠ node.params.nBlockRecalculateAccumulators + 1) :
    node.OrdinaryCall state (.connectTip ctx vstate hash fAlreadyChecked) := by
  refine ⟨same, ?_⟩
  intro pindex block index disk _
  exact holds pindex index block disk

theorem supplyIsTotal_burningRun :
    (burningRun.foldl ChainState.call (.regtest burningBlock)).chainActive = [100, 101] ∧
    ∀ state ∈ Foundation.Run.states ChainState.call (.regtest burningBlock) burningRun,
      (ChainContext.regtest burningBlock).SupplyIsTotal state := by
  have named : RegtestBlocks burningBlock := fun _ => ⟨rfl, rfl⟩
  have same : (ChainContext.regtest burningBlock).SameNode (.regtest burningBlock) :=
    ⟨rfl, rfl, rfl, rfl⟩
  refine ⟨by decide +kernel, ?_⟩
  apply supplyIsTotal_of_run _ _ _ (linked_regtest named) rfl rfl
  · intro pindex index
    cases index
    rfl
  · intro hash pindex index
    unfold ChainState.regtest at index
    dsimp only at index
    split at index
    · cases index
      rfl
    · obtain ⟨nHeight, -, rfl⟩ := Option.map_eq_some_iff.mp index
      rfl
  · exact honestDisk_regtest named
  · refine ⟨ordinaryCall_connectTip same ?_, same, ordinaryCall_connectTip same ?_, trivial⟩
    · decide +kernel
    · decide +kernel

end GiantCore
