import GiantCore.Validation.ZerocoinRecords

/-! # A public coin is minted once

From the second version of zerocoins on, `ConnectBlock` refuses a mint whose public
coin has a record of a transaction in the chain. The records of a block are written
after all its transactions are tested, so the test never sees the other mints of the
same block: two mints of one coin in a block pass. Across blocks the test is enough
while the records of the chain are there, and they are unless disconnecting a block
breaks off half-way.
-/

namespace GiantCore

open ChainState

namespace ChainContext

/-- The public coins that the chain mints from the second version of zerocoins on,
block by block, transaction by transaction and output by output. -/
def chainMints (node : ChainContext) (state : ChainState) : List CBigNum :=
  (state.chainActive.drop node.params.nBlockZerocoinV2.toNat).flatMap fun hash =>
    (node.readBlockFromDisk hash).elim [] CBlock.mintedValues

/-- No public coin is minted twice. -/
def MintsOnce (node : ChainContext) (state : ChainState) : Prop := (node.chainMints state).Nodup

/-- An identifier belongs to one transaction. -/
def UniqueTxids (node : ChainContext) : Prop :=
  ∀ hash block tx hash' block' tx', node.readBlockFromDisk hash = some block →
    node.readBlockFromDisk hash' = some block' → tx ∈ block.vtx → tx' ∈ block'.vtx →
    tx.hash = tx'.hash → tx = tx'

/-- The memory pool holds no transaction of the chain: `ConnectTip` removes them. -/
def PoolApart (ctx : ChainContext) (state : ChainState) : Prop :=
  ∀ hash ∈ state.chainActive, ∀ block, ctx.readBlockFromDisk hash = some block →
    ∀ tx ∈ block.vtx, ctx.mempool tx.hash = none

/-- **The calls that keep mints apart.** A block that is connected from the second
version of zerocoins on mints distinct coins, and disconnecting a block with mints
does not break off. -/
def KeepsMintsApart (node : ChainContext) (state : ChainState) : TipCall → Prop
  | .connectTip ctx _ hash _ => node.SameNode ctx ∧ ctx.PoolApart state ∧
      ∀ pindex block, state.mapBlockIndex hash = some pindex →
        node.readBlockFromDisk hash = some block → node.params.nBlockZerocoinV2 ≤ pindex.nHeight →
        block.mintedValues.Nodup
  | .disconnectTip ctx vstate => node.SameNode ctx ∧
      ((state.disconnectTip ctx vstate).2 = .ok () ∨
        ∀ hash block, state.chainActive.getLast? = some hash →
          node.readBlockFromDisk hash = some block → block.mintedValues = [])

end ChainContext

/-! ## The test of a mint -/

section

variable {ctx : ChainContext} {state : ChainState} {pindex : ChainIndex}
  {vstate : CValidationState} {block : CBlock} {fScriptChecks : Bool} {view : CoinsView}

/-- A coinbase has no zerocoins. -/
theorem publicCoins_of_isCoinBase {tx : CTransaction} (coinBase : tx.isCoinBase = true) :
    tx.publicCoins = [] := by
  unfold CTransaction.isCoinBase at coinBase
  split at coinBase
  · simp only [Bool.and_eq_true, CTransaction.containsZerocoins, Bool.not_eq_true',
      Bool.or_eq_false_iff, CTransaction.hasZerocoinMintOutputs, List.any_eq_false] at coinBase
    rw [CTransaction.publicCoins, List.filter_eq_nil_iff.mpr coinBase.2.2]
    rfl
  · cases coinBase

/-- Every mint of a transaction that is tested is tested. -/
theorem checkMints_of_checkTx {tx : CTransaction} {nSigOps after : Nat}
    (tested : checkTx ctx state pindex vstate block fScriptChecks view nSigOps tx = .ok after) :
    ∀ coin ∈ tx.publicCoins,
      contextualCheckZerocoinMint (ctx.validationAt state) coin pindex.nHeight = true := by
  have mints : tx.isCoinBase = true ∨ checkMints ctx state pindex vstate tx = .ok () := by
    simp only [checkTx, Foundation.Checks.bind_eq_ok] at tested
    obtain ⟨_, -, _, -, tested⟩ := tested
    split at tested
    · simp only [Foundation.Checks.bind_eq_ok, checkZerocoinTx] at tested
      obtain ⟨_, ⟨_, -, _, -, checked⟩, -⟩ := tested
      exact Or.inr checked
    · split at tested
      · exact Or.inl ‹_›
      · simp only [checkOrdinaryTx, Foundation.Checks.bind_eq_ok] at tested
        obtain ⟨_, -, _, -, _, checked, -⟩ := tested
        exact Or.inr checked
  rcases mints with coinBase | checked
  · rw [publicCoins_of_isCoinBase coinBase]
    simp
  · intro coin member
    obtain ⟨out, inside, read⟩ := List.mem_filterMap.mp member
    have passed := Foundation.Checks.forM_eq_ok_iff.mp checked out inside
    rw [read] at passed
    exact CValidationState.require_eq_ok.mp (acceptRule_eq_ok.mp passed)

/-- A public coin with a record of a transaction in the chain is refused. -/
theorem not_contextualCheckZerocoinMint {coin : PublicCoin} {txid : Uint256} {height : Int}
    (second : ctx.params.nBlockZerocoinV2 ≤ pindex.nHeight)
    (network : ctx.params.networkID ≠ .testnet)
    (record : state.zerocoinDB.mints[ctx.hashBignum coin.value]? = some txid)
    (inChain : ctx.isTransactionInChain state txid = some height) :
    contextualCheckZerocoinMint (ctx.validationAt state) coin pindex.nHeight = false := by
  have second : pindex.nHeight ≥ (ctx.validationAt state).node.params.nBlockZerocoinV2 := second
  have network : (ctx.validationAt state).node.params.networkID ≠ .testnet := network
  have record : (ctx.validationAt state).readCoinMint coin.value = some txid := record
  have inChain : (ctx.validationAt state).isTransactionInChain txid = some height := inChain
  simp [contextualCheckZerocoinMint, second, network, record, inChain]

end

/-! ## The records of the chain -/

/-- A block of the chain from the second version of zerocoins on. -/
structure MintingBlock (node : ChainContext) (state : ChainState) (i : Nat) (hash : Uint256)
    (block : CBlock) : Prop where
  here : state.chainActive[i]? = some hash
  second : node.params.nBlockZerocoinV2 ≤ i
  disk : node.readBlockFromDisk hash = some block

/-- The record of a public coin names a transaction of the block that mints it, and the
transaction index leads back to the block. -/
def Recorded (node : ChainContext) (state : ChainState) (hash : Uint256) (block : CBlock)
    (key : Nat) : Prop :=
  ∃ tx ∈ block.vtx, key ∈ tx.publicCoins.map (fun coin => node.hashBignum coin.value) ∧
    state.zerocoinDB.mints[key]? = some tx.hash ∧ state.txIndex tx.hash = some hash

/-- **The invariant of a run.** -/
structure MintsRecorded (node : ChainContext) (state : ChainState) : Prop where
  linked : Linked node.hashGenesisBlock state
  recorded : ∀ i hash block, MintingBlock node state i hash block → ∀ tx ∈ block.vtx,
    ∀ coin ∈ tx.publicCoins, Recorded node state hash block (node.hashBignum coin.value)
  distinct : ∀ i hash block, MintingBlock node state i hash block → block.mintedValues.Nodup

namespace MintsRecorded

variable {node : ChainContext} {state after : ChainState}

/-- Records of one key lead to one block. -/
theorem hash_eq {hash hash' : Uint256} {block block' : CBlock} {key : Nat}
    (first : Recorded node state hash block key) (second : Recorded node state hash' block' key) :
    hash = hash' := by
  obtain ⟨tx, -, -, record, index⟩ := first
  obtain ⟨tx', -, -, record', index'⟩ := second
  have same : tx.hash = tx'.hash := Option.some.inj (record.symm.trans record')
  rw [same] at index
  exact Option.some.inj (index.symm.trans index')

theorem mem_mintedValues {block : CBlock} {value : CBigNum} :
    value ∈ block.mintedValues ↔ ∃ tx ∈ block.vtx, ∃ coin ∈ tx.publicCoins, coin.value = value := by
  simp [CBlock.mintedValues]

/-- The invariant gives the property. -/
theorem mintsOnce (invariant : MintsRecorded node state) : node.MintsOnce state := by
  have minting : ∀ (i : Nat) hash block,
      (state.chainActive.drop node.params.nBlockZerocoinV2.toNat)[i]? = some hash →
      node.readBlockFromDisk hash = some block →
      MintingBlock node state (node.params.nBlockZerocoinV2.toNat + i) hash block := by
    intro i hash block here disk
    rw [List.getElem?_drop] at here
    exact ⟨here, by omega, disk⟩
  rw [ChainContext.MintsOnce, ChainContext.chainMints, List.nodup_flatMap]
  constructor
  · intro hash member
    obtain ⟨i, here⟩ := List.mem_iff_getElem?.mp member
    cases disk : node.readBlockFromDisk hash with
    | none => exact List.nodup_nil
    | some block => exact invariant.distinct _ hash block (minting i hash block here disk)
  · apply ((invariant.linked.nodup.sublist (List.drop_sublist ..)).imp_of_mem ?_)
    intro hash hash' member member' different
    obtain ⟨i, here⟩ := List.mem_iff_getElem?.mp member
    obtain ⟨j, there⟩ := List.mem_iff_getElem?.mp member'
    intro value first second
    beta_reduce at first second
    cases disk : node.readBlockFromDisk hash with
    | none => simp [disk] at first
    | some block =>
        cases disk' : node.readBlockFromDisk hash' with
        | none => simp [disk'] at second
        | some block' =>
            rw [disk] at first
            rw [disk'] at second
            obtain ⟨tx, inside, coin, minted, rfl⟩ := mem_mintedValues.mp first
            obtain ⟨tx', inside', coin', minted', same⟩ := mem_mintedValues.mp second
            have record := invariant.recorded _ hash block (minting i hash block here disk) tx
              inside coin minted
            have record' := invariant.recorded _ hash' block' (minting j hash' block' there disk')
              tx' inside' coin' minted'
            rw [same] at record'
            exact different (hash_eq record record')

/-- A recorded transaction is found in the chain. -/
theorem isTransactionInChain {ctx : ChainContext} (same : node.SameNode ctx)
    (linked : Linked node.hashGenesisBlock state) (apart : ctx.PoolApart state) {i : Nat}
    {hash : Uint256} {block : CBlock} (minting : MintingBlock node state i hash block)
    {tx : CTransaction} (inside : tx ∈ block.vtx) (index : state.txIndex tx.hash = some hash) :
    ∃ height, ctx.isTransactionInChain state tx.hash = some height := by
  have member := List.mem_of_getElem? minting.here
  have disk : ctx.readBlockFromDisk hash = some block := same.readBlockFromDisk ▸ minting.disk
  have pool := apart hash member block disk tx inside
  obtain ⟨prev, place, -⟩ := linked.path i hash minting.here
  obtain ⟨pindex, found, -⟩ := Option.map_eq_some_iff.mp place
  have nonzero : hash ≠ 0 := by
    rintro rfl
    rw [linked.zero] at place
    cases place
  obtain ⟨first, lookup⟩ : ∃ first, block.vtx.find? (fun other => other.hash == tx.hash) =
      some first :=
    Option.isSome_iff_exists.mp (List.find?_isSome.mpr ⟨tx, inside, beq_self_eq_true tx.hash⟩)
  have inChain : ChainContext.isBlockHashInChain state hash = true := by
    simpa [ChainContext.isBlockHashInChain, found, member] using nonzero
  refine ⟨pindex.nHeight, ?_⟩
  simp [ChainContext.isTransactionInChain, ChainContext.getTransaction, pool, index, disk, lookup,
    inChain, found]

/-! ## One call -/

/-- The invariant is about the chain, the records and the transaction index. -/
theorem of_same (invariant : MintsRecorded node state)
    (linked : Linked node.hashGenesisBlock after)
        (chainActive : after.chainActive = state.chainActive)
    (mints : after.zerocoinDB.mints = state.zerocoinDB.mints)
    (txIndex : after.txIndex = state.txIndex) : MintsRecorded node after := by
  obtain ⟨-, recorded, distinct⟩ := invariant
  have minting : ∀ i hash block, MintingBlock node after i hash block →
      MintingBlock node state i hash block := by
    intro i hash block ⟨here, second, disk⟩
    exact ⟨chainActive ▸ here, second, disk⟩
  refine ⟨linked, ?_, ?_⟩
  · intro i hash block here
    unfold Recorded
    rw [mints, txIndex]
    exact recorded i hash block (minting i hash block here)
  · intro i hash block here
    exact distinct i hash block (minting i hash block here)

/-- The mints of a block that is connected have no record in the chain. -/
theorem not_recorded_of_connects {ctx : ChainContext} {vstate : CValidationState}
    {tip : Uint256} {pindex bookedIndex : ChainIndex} {top : CBlock} {effects : BlockEffects}
    {booked : ChainState} (same : node.SameNode ctx) (network : node.params.networkID ≠ .testnet)
    (apart : ctx.PoolApart state) (invariant : MintsRecorded node state)
    (connects : ConnectsTip ctx state vstate tip after pindex top effects booked bookedIndex)
    {i : Nat} {hash : Uint256} {block : CBlock} (minting : MintingBlock node state i hash block)
    {tx : CTransaction} (inside : tx ∈ top.vtx)
      {coin : PublicCoin} (minted : coin ∈ tx.publicCoins) :
    ¬ Recorded node state hash block (node.hashBignum coin.value) := by
  rintro ⟨earlier, member, -, record, index⟩
  obtain ⟨height, inChain⟩ :=
    isTransactionInChain same invariant.linked apart minting member index
  have length := invariant.linked.nHeight_eq_length connects.place_tip
  have bound := (List.getElem?_eq_some_iff.mp minting.here).1
  have second : ctx.params.nBlockZerocoinV2 ≤ pindex.nHeight := by
    have start := minting.second
    rw [same.params]
    omega
  obtain ⟨fScriptChecks, undos, rounds, -⟩ := connectTransactions_eq_ok connects.transactions
  obtain ⟨view, nSigOps, next, tested⟩ := checkTx_of_connectRounds rounds tx inside
  have passed := checkMints_of_checkTx tested coin minted
  rw [not_contextualCheckZerocoinMint second (same.params ▸ network)
    (same.hashBignum ▸ record) inChain] at passed
  cases passed

/-- A block that is connected brings its records. -/
theorem vMints_eq {ctx : ChainContext} {vstate : CValidationState} {tip : Uint256}
    {pindex bookedIndex : ChainIndex} {top : CBlock} {effects : BlockEffects}
    {booked : ChainState} (same : node.SameNode ctx)
    (connects : ConnectsTip ctx state vstate tip after pindex top effects booked bookedIndex) :
    after.zerocoinDB.mints = (top.vtx.flatMap node.mintRecords).foldl
      (fun map entry => map.insert entry.1 entry.2) state.zerocoinDB.mints := by
  obtain ⟨fScriptChecks, undos, rounds, -⟩ := connectTransactions_eq_ok connects.transactions
  have lists := (records_of_connectTxs (connectTxs_of_connectRounds rounds)).1
  have keys : ctx.mintRecords = node.mintRecords := by
    funext tx
    rw [ChainContext.mintRecords, ChainContext.mintRecords, same.hashBignum]
  rw [connects.zerocoinDB, ZerocoinDB.writeCoinMintBatch, lists, keys]
  rfl

theorem connects (same : node.SameNode ctx) (network : node.params.networkID ≠ .testnet)
    (unique : node.UniqueTxids) (apart : ctx.PoolApart state)
    (invariant : MintsRecorded node state) {vstate : CValidationState} {tip : Uint256}
    {pindex bookedIndex : ChainIndex} {top : CBlock} {effects : BlockEffects}
    {booked : ChainState}
    (connects : ConnectsTip ctx state vstate tip after pindex top effects booked bookedIndex)
    (distinct : node.params.nBlockZerocoinV2 ≤ pindex.nHeight → top.mintedValues.Nodup) :
    MintsRecorded node after := by
  have length := invariant.linked.nHeight_eq_length connects.place_tip
  have disk : node.readBlockFromDisk tip = some top := same.readBlockFromDisk ▸ connects.disk
  -- a block of the longer chain is an old one or the new tip
  have cases : ∀ i hash block, MintingBlock node after i hash block →
      MintingBlock node state i hash block ∨
        (i = state.chainActive.length ∧ hash = tip ∧ block = top) := by
    intro i hash block minting
    have here := minting.here
    rw [connects.chainActive] at here
    rcases Nat.lt_or_ge i state.chainActive.length with old | new
    · rw [List.getElem?_append_left old] at here
      exact Or.inl ⟨here, minting.second, minting.disk⟩
    · rw [List.getElem?_append_right new] at here
      obtain ⟨bound, equal⟩ := List.getElem?_eq_some_iff.mp here
      simp only [List.length_singleton, Nat.lt_one_iff] at bound
      simp only [bound, List.getElem_cons_zero] at equal
      subst equal
      exact Or.inr ⟨by omega, rfl, Option.some.inj (minting.disk.symm.trans disk)⟩
  refine ⟨connects.linked invariant.linked, ?_, ?_⟩
  · intro i hash block minting tx inside coin minted
    rcases cases i hash block minting with old | ⟨-, rfl, rfl⟩
    · obtain ⟨earlier, member, mints, record, index⟩ :=
        invariant.recorded i hash block old tx inside coin minted
      have absent : ∀ other ∈ top.vtx, ∀ coin' ∈ other.publicCoins,
          node.hashBignum coin'.value ≠ node.hashBignum coin.value := by
        intro other inside' coin' minted' equal
        refine not_recorded_of_connects same network apart invariant connects old inside' minted' ?_
        rw [equal]
        exact ⟨earlier, member, mints, record, index⟩
      refine ⟨earlier, member, mints, ?_, ?_⟩
      · rw [vMints_eq same connects, ZerocoinDB.getElem?_foldl_insert_of_not_mem, record]
        intro written
        obtain ⟨entry, listed, equal⟩ := List.mem_map.mp written
        obtain ⟨other, inside', listed⟩ := List.mem_flatMap.mp listed
        obtain ⟨coin', minted', rfl⟩ := List.mem_map.mp listed
        exact absent other inside' coin' minted' equal
      · rw [connects.txIndex]
        dsimp only
        rw [if_neg, index]
        rw [List.any_eq_true]
        rintro ⟨other, inside', equal⟩
        have twin := unique _ _ _ _ _ _ disk old.disk inside' member (beq_iff_eq.mp equal)
        subst twin
        obtain ⟨coin', minted', equal⟩ := List.mem_map.mp mints
        exact absent other inside' coin' minted' equal
    · have listed : (node.hashBignum coin.value, tx.hash) ∈ block.vtx.flatMap node.mintRecords :=
        List.mem_flatMap.mpr ⟨tx, inside, List.mem_map.mpr ⟨coin, minted, rfl⟩⟩
      obtain ⟨txid, written, found⟩ := ZerocoinDB.getElem?_foldl_insert_of_mem
        state.zerocoinDB.mints (List.mem_map.mpr ⟨_, listed, rfl⟩)
      obtain ⟨other, inside', written⟩ := List.mem_flatMap.mp written
      obtain ⟨coin', minted', equal⟩ := List.mem_map.mp written
      simp only [Prod.mk.injEq] at equal
      obtain ⟨equal, rfl⟩ := equal
      refine ⟨other, inside', List.mem_map.mpr ⟨coin', minted', equal⟩, ?_, ?_⟩
      · rw [vMints_eq same connects, found]
      · rw [connects.txIndex]
        dsimp only
        rw [if_pos]
        exact List.any_eq_true.mpr ⟨other, inside', beq_self_eq_true _⟩
  · intro i hash block minting
    rcases cases i hash block minting with old | ⟨height, rfl, rfl⟩
    · exact invariant.distinct i hash block old
    · apply distinct
      have start := minting.second
      omega

/-- A block that is disconnected takes its own records along and no others. -/
theorem disconnects {ctx : ChainContext} (same : node.SameNode ctx)
    (invariant : MintsRecorded node state) {vstate : CValidationState} {tip hashPrev : Uint256}
    {pindex : ChainIndex} {top : CBlock} {vtxundo : List CTxUndo} {current : DisconnectState}
    (disconnects : DisconnectsTip ctx state vstate after tip hashPrev pindex top vtxundo
      current) : MintsRecorded node after := by
  have disk : node.readBlockFromDisk tip = some top := same.readBlockFromDisk ▸ disconnects.disk
  have last := disconnects.tip
  rw [List.getLast?_eq_getElem?] at last
  -- a block of the shorter chain is one of the longer chain, below the tip
  have older : ∀ i hash block, MintingBlock node after i hash block →
      MintingBlock node state i hash block ∧ i + 1 < state.chainActive.length := by
    intro i hash block minting
    have here := minting.here
    rw [disconnects.chainActive, List.getElem?_dropLast] at here
    split at here
    · exact ⟨⟨here, minting.second, minting.disk⟩, by omega⟩
    · cases here
  refine ⟨disconnects.linked invariant.linked, ?_, ?_⟩
  · intro i hash block minting tx inside coin minted
    obtain ⟨before, below⟩ := older i hash block minting
    have record := invariant.recorded i hash block before tx inside coin minted
    have tipMinting : MintingBlock node state (state.chainActive.length - 1) tip top :=
      ⟨last, by have start := before.second; omega, disk⟩
    have others : ∀ other ∈ top.vtx, ∀ coin' ∈ other.publicCoins,
        node.hashBignum coin'.value ≠ node.hashBignum coin.value := by
      intro other inside' coin' minted' equal
      have record' := invariant.recorded _ tip top tipMinting other inside' coin' minted'
      rw [equal] at record'
      have sameHash := hash_eq record record'
      subst sameHash
      have position := (List.getElem?_inj (by omega) invariant.linked.nodup).mp
        (before.here.trans last.symm)
      omega
    obtain ⟨earlier, member, mints, found, index⟩ := record
    refine ⟨earlier, member, mints, ?_, ?_⟩
    · let keeps := fun db : ZerocoinDB =>
        db.mints[node.hashBignum coin.value]? = some earlier.hash
      have kept : keeps (disconnectRounds ctx state vstate pindex.nHeight
          (top.vtx.zip (none :: vtxundo.map some))
          { view := state.coinsTip.coins, zerocoinDB := state.zerocoinDB }).1.zerocoinDB := by
        refine keeps_disconnectRounds ?_ found
        intro entry listed
        refine ⟨fun _ _ _ _ _ kept => kept, ?_⟩
        intro coin' minted' db kept
        have different := others entry.1 (List.of_mem_zip listed).1 coin' minted'
        simp only [keeps, ZerocoinDB.eraseCoinMint, same.hashBignum,
          Std.ExtTreeMap.getElem?_erase]
        rw [if_neg (by simp [different]), kept]
      rw [disconnects.rounds] at kept
      rw [disconnects.zerocoinDB]
      exact kept
    · rw [disconnects.txIndex, index]
  · intro i hash block minting
    exact invariant.distinct i hash block (older i hash block minting).1

/-- **One call** keeps the invariant. -/
theorem call (honest : node.HonestDisk) (unique : node.UniqueTxids)
    (network : node.params.networkID ≠ .testnet) {action : TipCall}
    (apart : node.KeepsMintsApart state action) (invariant : MintsRecorded node state) :
    MintsRecorded node (state.call action) := by
  have same : node.SameNode action.ctx := by
    cases action with
    | connectTip ctx vstate hash fAlreadyChecked => exact apart.1
    | disconnectTip ctx vstate => exact apart.1
  have linked := invariant.linked.call honest same
  have effect := callEffect invariant.linked honest same
  generalize called : state.call action = after at linked effect ⊢
  cases effect with
  | unchanged => exact invariant
  | refused index disk parent refuses =>
      exact invariant.of_same linked refuses.chainActive
        (congrArg ZerocoinDB.mints refuses.zerocoinDB) refuses.txIndex
  | connected connects =>
      obtain ⟨-, pool, distinct⟩ := apart
      refine invariant.connects same network unique pool connects ?_
      exact distinct _ _ connects.index (same.readBlockFromDisk ▸ connects.disk)
  | disconnected disconnects => exact invariant.disconnects same disconnects
  | @broken ctx vstate after failure db store fails left =>
      have nothing := apart.2.resolve_left fun went => nomatch fails.symm.trans went
      let keeps := fun db : ZerocoinDB => db.mints = state.zerocoinDB.mints
      have kept : keeps (state.call (.disconnectTip ctx vstate)).zerocoinDB := by
        refine keeps_disconnectTip (fun hash block tip disk tx inside => ?_) rfl
        refine ⟨fun _ _ _ _ _ kept => kept, ?_⟩
        intro coin minted
        have none := nothing hash block tip (same.readBlockFromDisk ▸ disk)
        have member := mem_mintedValues.mpr ⟨tx, inside, coin, minted, rfl⟩
        rw [none] at member
        cases member
      rw [called] at kept
      refine invariant.of_same linked ?_ kept ?_
      · rw [left]
      · rw [left]

end MintsRecorded

/-- **Every coin is minted once.** In a run from the first block on a network other than
testnet whose calls keep mints apart, no public coin is minted twice from the second
version of zerocoins on: not in two blocks, two transactions or two outputs. -/
theorem mintsOnce_of_run (node : ChainContext) (start : ChainState) (actions : List TipCall)
    (linked : Linked node.hashGenesisBlock start)
    (atGenesis : start.chainActive = [node.hashGenesisBlock])
    (first : ∀ block, node.readBlockFromDisk node.hashGenesisBlock = some block →
      block.mintedValues = [])
    (honest : node.HonestDisk) (unique : node.UniqueTxids)
    (network : node.params.networkID ≠ .testnet)
    (apart : Foundation.Run.AllSteps ChainState.call node.KeepsMintsApart start actions) :
    node.MintsOnce (actions.foldl ChainState.call start) := by
  have nothing : ∀ i hash block, MintingBlock node start i hash block →
      block.mintedValues = [] := by
    intro i hash block minting
    have member := List.mem_of_getElem? minting.here
    rw [atGenesis, List.mem_singleton] at member
    subst member
    exact first block minting.disk
  have initial : MintsRecorded node start := by
    refine ⟨linked, ?_, ?_⟩
    · intro i hash block minting tx inside coin minted
      have member := MintsRecorded.mem_mintedValues.mpr ⟨tx, inside, coin, minted, rfl⟩
      rw [nothing i hash block minting] at member
      cases member
    · intro i hash block minting
      rw [nothing i hash block minting]
      exact List.nodup_nil
  have last := Foundation.Run.invariant_of_steps
    (fun _ _ apart invariant => MintsRecorded.call honest unique network apart invariant)
    initial apart
  exact last.mintsOnce

/-! ## Two mints in one block -/

/-- A coinstake for each block from height 251 on. -/
def regtestCoinStake (nHeight : Nat) : CTransaction where
  hash := BitVec.ofNat 256 (5000 + nHeight)
  vin := [{ prevout := ⟨1001, UInt32.ofNat (nHeight - 251)⟩, scriptSig := [1, 2] }]
  vout := [⟨0, [], -10⟩, ⟨1000 * COIN, [0x51], -10⟩]

/-- A transaction with two mints, of the coin 7 and of another one. -/
def regtestMints (other : UInt8) : CTransaction where
  hash := 9000
  vin := [{ prevout := ⟨1001, 59⟩, scriptSig := [1, 2] }]
  vout := [⟨COIN, [0xc1, 0, 0, 0, 0, 0, 7], -10⟩, ⟨COIN, [0xc1, 0, 0, 0, 0, 0, other], -10⟩]

/-- The blocks up to the height where the second version of zerocoins starts. -/
def regtestBlock (other : UInt8) (nHeight : Nat) : CBlock :=
  blockAt (BitVec.ofNat 256 (100 + nHeight)) (BitVec.ofNat 256 (99 + nHeight))
    (regtestCoinBase nHeight ::
      if nHeight ≤ 250 then []
      else if nHeight ≤ 299 then [regtestCoinStake nHeight]
      else [regtestCoinStake nHeight, regtestMints other])

/-- All blocks are connected, one after the other. -/
def regtestRun (other : UInt8) : List TipCall :=
  ((List.range 299).map fun i => TipCall.connectTip (.regtest (regtestBlock other)) {}
    (BitVec.ofNat 256 (101 + i)) true) ++ [.connectTip (.regtest (regtestBlock other)) {} 400 false]

theorem regtestBlocks (other : UInt8) : RegtestBlocks (regtestBlock other) :=
  fun _ => ⟨rfl, rfl⟩

theorem mem_regtestBlock {other : UInt8} {nHeight : Nat} {tx : CTransaction}
    (inside : tx ∈ (regtestBlock other nHeight).vtx) :
    tx = regtestCoinBase nHeight ∨ tx = regtestCoinStake nHeight ∨ tx = regtestMints other := by
  have listed : tx ∈ regtestCoinBase nHeight ::
      if nHeight ≤ 250 then []
      else if nHeight ≤ 299 then [regtestCoinStake nHeight]
      else [regtestCoinStake nHeight, regtestMints other] := inside
  rcases List.mem_cons.mp listed with rfl | later
  · exact Or.inl rfl
  · split at later
    · cases later
    · split at later
      · exact Or.inr (Or.inl (List.mem_singleton.mp later))
      · simp only [List.mem_cons, List.not_mem_nil, or_false] at later
        exact Or.inr later

/-- The heights and kinds of transactions can be read off the identifiers. -/
theorem uniqueTxids_regtest (other : UInt8) :
    (ChainContext.regtest (regtestBlock other)).UniqueTxids := by
  intro hash block tx hash' block' tx' disk disk' inside inside' same
  obtain ⟨nHeight, height, rfl⟩ := Option.map_eq_some_iff.mp disk
  obtain ⟨nHeight', height', rfl⟩ := Option.map_eq_some_iff.mp disk'
  obtain ⟨-, low, high⟩ := regtestHeight_eq_some height
  obtain ⟨-, low', high'⟩ := regtestHeight_eq_some height'
  have base := fun n (small : n ≤ 300) => toNat_regtest (show 1000 + n ≤ 10000 by omega)
  have stake := fun n (small : n ≤ 300) => toNat_regtest (show 5000 + n ≤ 10000 by omega)
  have mints : (9000 : Uint256).toNat = 9000 := rfl
  have numbers := congrArg BitVec.toNat same
  rcases mem_regtestBlock inside with rfl | rfl | rfl <;>
    rcases mem_regtestBlock inside' with rfl | rfl | rfl <;>
    simp only [regtestCoinBase, regtestCoinStake, regtestMints, base nHeight high,
      base nHeight' high', stake nHeight high, stake nHeight' high', mints] at numbers
  · rw [show nHeight = nHeight' by omega]
  · omega
  · omega
  · omega
  · rw [show nHeight = nHeight' by omega]
  · omega
  · omega
  · omega
  · rfl

theorem publicCoins_regtestCoinBase (nHeight : Nat) :
    (regtestCoinBase nHeight).publicCoins = [] := by
  unfold CTransaction.publicCoins regtestCoinBase
  dsimp only
  split
  · decide
  · decide

/-- With another coin than 7, every block mints distinct coins. -/
theorem nodup_regtestBlock (nHeight : Nat) : (regtestBlock 9 nHeight).mintedValues.Nodup := by
  have listed : (regtestBlock 9 nHeight).vtx = regtestCoinBase nHeight ::
      if nHeight ≤ 250 then []
      else if nHeight ≤ 299 then [regtestCoinStake nHeight]
      else [regtestCoinStake nHeight, regtestMints 9] := rfl
  rw [CBlock.mintedValues, listed, List.flatMap_cons, publicCoins_regtestCoinBase]
  split
  · decide
  · split
    · exact (by decide : List.Nodup ([] : List CBigNum))
    · exact (by decide : List.Nodup ([7, 9] : List CBigNum))

theorem mintsOnce_regtestRun :
    (ChainContext.regtest (regtestBlock 9)).MintsOnce
      ((regtestRun 9).foldl ChainState.call (.regtest (regtestBlock 9))) := by
  refine mintsOnce_of_run _ _ _ (linked_regtest (regtestBlocks 9)) rfl nofun
    (honestDisk_regtest (regtestBlocks 9)) (uniqueTxids_regtest 9) (by decide)
    (Foundation.Run.allSteps_of_forall ?_)
  intro state action member
  have connecting : ∃ hash fAlreadyChecked,
      action = .connectTip (.regtest (regtestBlock 9)) {} hash fAlreadyChecked := by
    rcases List.mem_append.mp member with early | last
    · obtain ⟨i, -, rfl⟩ := List.mem_map.mp early
      exact ⟨_, _, rfl⟩
    · exact ⟨_, _, List.mem_singleton.mp last⟩
  obtain ⟨hash, fAlreadyChecked, rfl⟩ := connecting
  refine ⟨⟨rfl, rfl, rfl, rfl⟩, fun _ _ _ _ _ _ => rfl, ?_⟩
  intro pindex block _ disk _
  obtain ⟨nHeight, -, rfl⟩ := Option.map_eq_some_iff.mp disk
  exact nodup_regtestBlock nHeight

set_option maxRecDepth 20000 in
/-- A transaction that mints the coin 7 twice is accepted. -/
theorem not_mintsOnce_regtestRun :
    ¬ ∀ (node : ChainContext) (start : ChainState) (actions : List TipCall),
      Linked node.hashGenesisBlock start → start.chainActive = [node.hashGenesisBlock] →
      (∀ block, node.readBlockFromDisk node.hashGenesisBlock = some block →
        block.mintedValues = []) →
      node.HonestDisk → node.UniqueTxids → node.params.networkID ≠ .testnet →
      Foundation.Run.AllSteps ChainState.call
        (fun state action => node.SameNode action.ctx ∧ action.ctx.PoolApart state) start
        actions →
      node.MintsOnce (actions.foldl ChainState.call start) := by
  intro once
  have minted := once (.regtest (regtestBlock 7)) (.regtest (regtestBlock 7)) (regtestRun 7)
    (linked_regtest (regtestBlocks 7)) rfl nofun (honestDisk_regtest (regtestBlocks 7))
    (uniqueTxids_regtest 7) (by decide) (Foundation.Run.allSteps_of_forall ?_)
  · have twice : (ChainContext.regtest (regtestBlock 7)).chainMints
        ((regtestRun 7).foldl ChainState.call (.regtest (regtestBlock 7))) = [7, 7] := by
      decide +kernel
    rw [ChainContext.MintsOnce, twice] at minted
    revert minted
    decide
  · intro state action member
    rcases List.mem_append.mp member with early | last
    · obtain ⟨i, -, rfl⟩ := List.mem_map.mp early
      exact ⟨⟨rfl, rfl, rfl, rfl⟩, fun _ _ _ _ _ _ => rfl⟩
    · cases List.mem_singleton.mp last
      exact ⟨⟨rfl, rfl, rfl, rfl⟩, fun _ _ _ _ _ _ => rfl⟩

end GiantCore
