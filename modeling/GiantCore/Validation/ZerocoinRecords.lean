import GiantCore.Validation.ChainRun

/-! # The records of zerocoins

The zerocoin database has a record of each spent serial and of each mint, under
its hash and with the transaction it is in. `ConnectBlock` writes the records of a
block in one batch after all its transactions are tested, and `DisconnectBlock`
erases them one by one.
-/

namespace GiantCore

namespace ZerocoinDB

/-- A record that a batch does not write. -/
theorem getElem?_foldl_insert_of_not_mem {entries : List (Nat × Uint256)} {key : Nat}
    (map : Std.ExtTreeMap Nat Uint256) (absent : key ∉ entries.map Prod.fst) :
    (entries.foldl (fun map entry => map.insert entry.1 entry.2) map)[key]? = map[key]? := by
  induction entries generalizing map with
  | nil => rfl
  | cons entry rest ih =>
      rw [List.map_cons, List.mem_cons, not_or] at absent
      rw [List.foldl_cons, ih _ absent.2, Std.ExtTreeMap.getElem?_insert,
        if_neg (by simp [Ne.symm absent.1])]

/-- A record that a batch writes. -/
theorem getElem?_foldl_insert_of_mem {entries : List (Nat × Uint256)} {key : Nat}
    (map : Std.ExtTreeMap Nat Uint256) (present : key ∈ entries.map Prod.fst) :
    ∃ txid, (key, txid) ∈ entries ∧
      (entries.foldl (fun map entry => map.insert entry.1 entry.2) map)[key]? = some txid := by
  induction entries generalizing map with
  | nil => simp at present
  | cons entry rest ih =>
      rw [List.foldl_cons]
      by_cases later : key ∈ rest.map Prod.fst
      · obtain ⟨txid, member, found⟩ := ih (map.insert entry.1 entry.2) later
        exact ⟨txid, List.mem_cons_of_mem _ member, found⟩
      · have here : key = entry.1 := by
          rw [List.map_cons, List.mem_cons] at present
          exact present.resolve_right later
        refine ⟨entry.2, ?_, ?_⟩
        · rw [here]
          exact List.mem_cons_self
        · rw [getElem?_foldl_insert_of_not_mem _ later, here,
            Std.ExtTreeMap.getElem?_insert_self]

end ZerocoinDB

/-- The mints of a transaction. -/
def CTransaction.publicCoins (tx : CTransaction) : List PublicCoin :=
  (tx.vout.filter CTxOut.isZerocoinMint).filterMap txOutToPublicCoin

/-- The public coins that a block mints. -/
def CBlock.mintedValues (block : CBlock) : List CBigNum :=
  block.vtx.flatMap fun tx => tx.publicCoins.map PublicCoin.value

namespace ChainContext

variable (ctx : ChainContext)

/-- The records of the mints of a transaction. -/
def mintRecords (tx : CTransaction) : List (Nat × Uint256) :=
  tx.publicCoins.map fun coin => (ctx.hashBignum coin.value, tx.hash)

/-- The key of a spend, if the spend can be read. -/
def spendKey (txin : CTxIn) : Option Nat :=
  (ctx.validation.spendSerial txin).map ctx.hashBignum

/-- The records of the spends of a transaction. -/
def spendRecords (tx : CTransaction) : List (Nat × Uint256) :=
  ((tx.vin.filter CTxIn.isZerocoinSpend).filterMap ctx.spendKey).map fun key => (key, tx.hash)

def blockMintRecords (block : CBlock) : List (Nat × Uint256) := block.vtx.flatMap ctx.mintRecords

def blockSpendRecords (block : CBlock) : List (Nat × Uint256) :=
  block.vtx.flatMap ctx.spendRecords

/-- Write the records of a block. -/
def writeRecords (block : CBlock) (db : ZerocoinDB) : ZerocoinDB where
  spends := (ctx.blockSpendRecords block).foldl (fun map entry => map.insert entry.1 entry.2)
    db.spends
  mints := (ctx.blockMintRecords block).foldl (fun map entry => map.insert entry.1 entry.2) db.mints

end ChainContext

/-! ## Writing -/

section

variable {ctx : ChainContext} {state : ChainState}

/-- Decoding all mints of a transaction gives their keys. -/
theorem publicCoins_coinsAt {tx : CTransaction} {keys : List Nat}
    (decoded : (ctx.coinsAt state).publicCoins tx = some keys) :
    keys = (tx.publicCoins.map fun coin => ctx.hashBignum coin.value) ∧
      ∀ out ∈ tx.vout, out.isZerocoinMint = true → (txOutToPublicCoin out).isSome := by
  have outputs : ∀ (outs : List CTxOut) (keys : List Nat),
      outs.mapM (ctx.coinsAt state).txOutToPublicCoin = some keys →
      keys = ((outs.filterMap txOutToPublicCoin).map fun coin => ctx.hashBignum coin.value) ∧
        ∀ out ∈ outs, (txOutToPublicCoin out).isSome := by
    intro outs
    induction outs with
    | nil =>
        intro keys decoded
        cases decoded
        simp
    | cons out rest ih =>
        intro keys decoded
        simp only [List.mapM_cons, Option.bind_eq_bind, Option.bind_eq_some_iff, Option.pure_def,
          Option.some.injEq] at decoded
        obtain ⟨key, first, others, remaining, rfl⟩ := decoded
        obtain ⟨coin, read, rfl⟩ := Option.map_eq_some_iff.mp first
        obtain ⟨listed, later⟩ := ih others remaining
        refine ⟨?_, List.forall_mem_cons.mpr ⟨by rw [read]; rfl, later⟩⟩
        rw [List.filterMap_cons_some read, List.map_cons, listed]
  obtain ⟨listed, read⟩ := outputs _ keys decoded
  refine ⟨listed, ?_⟩
  intro out inside mint
  exact read out (List.mem_filter.mpr ⟨inside, mint⟩)

/-- **The lists that the loop of `ConnectBlock` collects.** -/
theorem records_of_connectTxs {nHeight : Int} {done txs : List CTransaction}
    {start last : ConnectState} {undos : List CTxUndo}
    (connects : (ctx.coinsAt state).connectTxs nHeight done txs start = some (undos, last)) :
    last.vMints = start.vMints ++ txs.flatMap ctx.mintRecords ∧
      last.vSpends = start.vSpends ++ txs.flatMap fun tx =>
        ((ctx.coinsAt state).coinSpends tx).map fun spend => (spend, tx.hash) := by
  induction txs generalizing done start undos with
  | nil =>
      cases connects
      simp
  | cons tx rest ih =>
      obtain ⟨undo, next, others, first, remaining, rfl⟩ :=
        (ctx.coinsAt state).connectTxs_cons connects
      obtain ⟨mints, spends⟩ := ih remaining
      simp only [ConnectContext.connectTx, Option.bind_eq_bind, Option.bind_eq_some_iff,
        Prod.exists, Option.pure_def, Option.some.injEq, Prod.mk.injEq] at first
      obtain ⟨_, _, _, _, keys, decoded, _, _, _, rfl, rfl⟩ := first
      rw [mints, spends, (publicCoins_coinsAt decoded).1]
      simp [ChainContext.mintRecords]

/-- The spends of a transaction that passes the tests can be read. -/
theorem exists_spend_of_checkTx {pindex : ChainIndex} {vstate : CValidationState} {block : CBlock}
    {fScriptChecks : Bool} {view : CoinsView} {nSigOps after : Nat} {tx : CTransaction}
    (tested : checkTx ctx state pindex vstate block fScriptChecks view nSigOps tx = .ok after) :
    ∀ txin ∈ tx.vin.filter CTxIn.isZerocoinSpend, ∃ spend,
      txInToZerocoinSpend ctx.validation.lib (ctx.validationAt state).useModulusV1 txin =
        some spend := by
  intro txin member
  have spends : tx.hasZerocoinSpendInputs = true := by
    obtain ⟨inside, spend⟩ := List.mem_filter.mp member
    exact List.any_eq_true.mpr ⟨txin, inside, spend⟩
  simp only [checkTx, Foundation.Checks.bind_eq_ok, if_pos spends, checkZerocoinTx] at tested
  obtain ⟨_, -, _, -, _, ⟨_, -, _, read, -⟩, -⟩ := tested
  have here := Foundation.Checks.forM_eq_ok_iff.mp read txin member
  simp only [Foundation.Checks.bind_eq_ok, orUndefined_eq_ok] at here
  obtain ⟨spend, found, -⟩ := here
  exact ⟨spend, found⟩

/-- The key of a spend is the hash of its serial. -/
theorem spendKey_eq (ctx : ChainContext) (state : ChainState) (txin : CTxIn) :
    ctx.spendKey txin =
    (txInToZerocoinSpend ctx.validation.lib (ctx.validationAt state).useModulusV1 txin).map
      fun spend => ctx.hashBignum spend.coinSerialNumber := by
  simp only [ChainContext.spendKey, ValidationContext.spendSerial, txInToZerocoinSpend,
    Option.map_map]
  rfl

/-- If all its spends can be read, the keys that the loop collects of a transaction are
those of its records. -/
theorem coinSpends_coinsAt {tx : CTransaction}
    (read : ∀ txin ∈ tx.vin.filter CTxIn.isZerocoinSpend, ∃ spend,
      txInToZerocoinSpend ctx.validation.lib (ctx.validationAt state).useModulusV1 txin =
        some spend) :
    (((ctx.coinsAt state).coinSpends tx).map fun spend => (spend.coinSerialNumber, tx.hash)) =
      ctx.spendRecords tx := by
  unfold ConnectContext.coinSpends ChainContext.spendRecords
  generalize tx.vin.filter CTxIn.isZerocoinSpend = vin at read ⊢
  induction vin with
  | nil => rfl
  | cons txin rest ih =>
      obtain ⟨spend, found⟩ := read txin List.mem_cons_self
      have key : ctx.spendKey txin = some (ctx.hashBignum spend.coinSerialNumber) := by
        rw [spendKey_eq ctx state, found, Option.map_some]
      have later := ih fun other member => read other (List.mem_cons_of_mem _ member)
      simp only [List.map_cons, List.filterMap_cons_some key, later]
      simp [ChainContext.coinsAt, found]

/-- **What an accepted block writes.** -/
theorem writeRecords_of_connectTransactions {block : CBlock} {vstate : CValidationState}
    {ref : IndexRef} {pindex : ChainIndex} {view : CoinsView} {effects : BlockEffects}
    (went : state.connectTransactions ctx block vstate ref pindex view = .ok effects)
    (db : ZerocoinDB) :
    (db.writeCoinSpendBatch effects.loop.connect.vSpends).writeCoinMintBatch
      effects.loop.connect.vMints = ctx.writeRecords block db := by
  obtain ⟨fScriptChecks, undos, rounds, -⟩ := ChainState.connectTransactions_eq_ok went
  obtain ⟨mints, spends⟩ := records_of_connectTxs (connectTxs_of_connectRounds rounds)
  have keys : (effects.loop.connect.vSpends.map fun entry =>
      (entry.1.coinSerialNumber, entry.2)) = ctx.blockSpendRecords block := by
    rw [spends, List.nil_append, List.map_flatMap, ChainContext.blockSpendRecords]
    apply List.flatMap_congr
    intro tx member
    obtain ⟨_, _, _, tested⟩ := checkTx_of_connectRounds rounds tx member
    rw [List.map_map]
    exact coinSpends_coinsAt (exists_spend_of_checkTx tested)
  unfold ZerocoinDB.writeCoinSpendBatch ZerocoinDB.writeCoinMintBatch ChainContext.writeRecords
  rw [mints, List.nil_append, ← keys, List.foldl_map]
  rfl

/-- **What `ConnectBlock` does to the zerocoin database.** It leaves the chain to its
callers. -/
theorem zerocoinDB_connectBlock {block : CBlock} {vstate : CValidationState} {hash : Uint256}
    {view last : CoinsView} {fAlreadyChecked : Bool} {after : ChainState}
    (went : state.connectBlock ctx block vstate (.entry hash) view false fAlreadyChecked =
      (after, .ok last)) :
    after.chainActive = state.chainActive ∧ after.zerocoinDB =
      if block.hash = ctx.hashGenesisBlock then state.zerocoinDB
      else ctx.writeRecords block state.zerocoinDB := by
  split
  · rename_i first
    unfold ChainState.connectBlock at went
    split at went
    · cases went
    · cases went
    · split at went
      · cases went
      · rw [if_pos first] at went
        cases went
        exact ⟨rfl, rfl⟩
  · rename_i later
    have accepted := congrArg Prod.snd went
    obtain ⟨pindex, effects, booked, bookedIndex, checked, accumulators, accepts, -, writes⟩ :=
      ChainState.connectBlock_eq_ok accepted later
    obtain ⟨-, wrote⟩ := writes rfl
    rw [went] at wrote
    have books : ChainState.SameBeside state (state.bookSupply ctx block vstate (.entry hash)
      pindex.nHeight effects).1 := ChainState.sameBeside_bookSupply _
    rw [accepts.books] at books
    obtain ⟨budgetState, passes⟩ := accepts.passes
    have same := ChainState.checkBooked_eq passes
    have wrote : after = _ := wrote
    rw [wrote, same, ← writeRecords_of_connectTransactions accepts.transactions]
    refine ⟨books.chainActive, ?_⟩
    have kept : booked.zerocoinDB = state.zerocoinDB := books.zerocoinDB
    rw [← kept]
    rfl

end

/-! ## Erasing -/

section

variable {ctx : ChainContext} {state : ChainState} {vstate : CValidationState}
  {keeps : ZerocoinDB → Prop}

/-- Erasing the spends of a transaction keeps the property. -/
theorem keeps_eraseSpends {vin : List CTxIn} {db : ZerocoinDB}
    (erases : ∀ txin ∈ vin, ∀ spend, txInToZerocoinSpend ctx.validation.lib
      (ctx.validationAt state).useModulusV1 txin = some spend →
      ∀ db, keeps db → keeps (db.eraseCoinSpend (ctx.hashBignum spend.coinSerialNumber)))
    (before : keeps db) : keeps (ChainState.eraseSpends ctx state vin db).1 := by
  induction vin generalizing db with
  | nil => exact before
  | cons txin rest ih =>
      unfold ChainState.eraseSpends
      split
      · exact before
      · rename_i spend read
        exact ih (fun other member => erases other (List.mem_cons_of_mem _ member))
          (erases txin List.mem_cons_self spend read db before)

/-- Erasing the mints of a transaction keeps the property. -/
theorem keeps_eraseMints {vout : List CTxOut} {db : ZerocoinDB}
    (erases : ∀ txout ∈ vout, ∀ coin, txOutToPublicCoin txout = some coin →
      ∀ db, keeps db → keeps (db.eraseCoinMint (ctx.hashBignum coin.value)))
    (before : keeps db) : keeps (ChainState.eraseMints ctx vstate vout db).1 := by
  induction vout generalizing db with
  | nil => exact before
  | cons txout rest ih =>
      unfold ChainState.eraseMints
      split
      · exact before
      · rename_i coin read
        exact ih (fun other member => erases other (List.mem_cons_of_mem _ member))
          (erases txout List.mem_cons_self coin read db before)

/-- Erasing the records of a transaction. -/
structure KeptErasing (ctx : ChainContext) (state : ChainState) (keeps : ZerocoinDB → Prop)
    (tx : CTransaction) : Prop where
  spends : ∀ txin ∈ tx.vin.filter CTxIn.isZerocoinSpend, ∀ spend,
    txInToZerocoinSpend ctx.validation.lib (ctx.validationAt state).useModulusV1 txin =
      some spend →
    ∀ db, keeps db → keeps (db.eraseCoinSpend (ctx.hashBignum spend.coinSerialNumber))
  mints : ∀ coin ∈ tx.publicCoins, ∀ db, keeps db →
    keeps (db.eraseCoinMint (ctx.hashBignum coin.value))

/-- Erasing the zerocoins of a transaction keeps the property. -/
theorem keeps_eraseZerocoins {tx : CTransaction} {db : ZerocoinDB}
    (kept : KeptErasing ctx state keeps tx) (before : keeps db) :
    keeps (ChainState.eraseZerocoins ctx state vstate tx db).1 := by
  have spent := keeps_eraseSpends kept.spends before
  unfold ChainState.eraseZerocoins
  split
  · rename_i erased
    rw [erased] at spent
    exact spent
  · rename_i erased
    rw [erased] at spent
    refine keeps_eraseMints ?_ spent
    intro txout member coin read
    exact kept.mints coin (List.mem_filterMap.mpr ⟨txout, member, read⟩)

/-- Restoring inputs leaves the database. -/
theorem zerocoinDB_restoreInputs (records : List (CTxIn × CTxInUndo)) (current : DisconnectState) :
    (ConnectContext.restoreInputs records current).zerocoinDB = current.zerocoinDB := by
  induction records with
  | nil => rfl
  | cons record rest ih => exact ih

/-- Undoing a transaction keeps the property. -/
theorem keeps_disconnectRound {nHeight : Int} {tx : CTransaction} {txundo : Option CTxUndo}
    {current : DisconnectState} (kept : KeptErasing ctx state keeps tx)
    (before : keeps current.zerocoinDB) :
    keeps (ChainState.disconnectRound ctx state vstate nHeight tx txundo current).1.zerocoinDB := by
  have erased : keeps (ChainState.eraseZerocoins ctx state vstate tx current.zerocoinDB).1 :=
    keeps_eraseZerocoins kept before
  unfold ChainState.disconnectRound
  dsimp only
  split
  · exact erased
  · split
    · exact erased
    · rename_i restored went
      unfold ChainState.restoreTx at went
      split at went
      · split at went
        · cases went
        · split at went
          · cases went
          · cases went
            rw [zerocoinDB_restoreInputs]
            exact erased
      · cases went
        exact erased

/-- **The loop of `DisconnectBlock`** keeps what erasing each record keeps, also where it
breaks off. -/
theorem keeps_disconnectRounds {nHeight : Int} {txs : List (CTransaction × Option CTxUndo)}
    {current : DisconnectState}
    (kept : ∀ entry ∈ txs, KeptErasing ctx state keeps entry.1)
    (before : keeps current.zerocoinDB) :
    keeps (ChainState.disconnectRounds ctx state vstate nHeight txs current).1.zerocoinDB := by
  induction txs with
  | nil => exact before
  | cons entry rest ih =>
      have later := ih fun other member => kept other (List.mem_cons_of_mem _ member)
      unfold ChainState.disconnectRounds
      split
      · rename_i went
        rw [went] at later
        exact later
      · rename_i went
        rw [went] at later
        exact keeps_disconnectRound (kept entry List.mem_cons_self) later

/-- Undoing a block keeps the property. -/
theorem keeps_disconnectBlock {block : CBlock} {hash : Uint256} {view : CoinsView}
    (kept : ∀ tx ∈ block.vtx, KeptErasing ctx state keeps tx) (before : keeps state.zerocoinDB) :
    keeps (state.disconnectBlock ctx vstate block hash view).1.zerocoinDB := by
  have loop : ∀ nHeight vtxundo, keeps (ChainState.disconnectRounds ctx state vstate nHeight
      (block.vtx.zip vtxundo)
      { view := view.coins, zerocoinDB := state.zerocoinDB }).1.zerocoinDB := by
    intro nHeight vtxundo
    apply keeps_disconnectRounds
    · intro entry member
      exact kept entry.1 (List.of_mem_zip member).1
    · exact before
  unfold ChainState.disconnectBlock
  split
  · exact before
  · split
    · exact before
    · split
      · exact before
      · exact before
      · split
        · exact before
        · dsimp only
          split
          · exact loop _ _
          · exact loop _ _
          · rw [ChainState.eraseCheckpointOf_eq]
            exact loop _ _

/-- **`DisconnectTip`** keeps what erasing each record of the tip keeps, also where it
fails. -/
theorem keeps_disconnectTip
    (kept : ∀ hash block, state.chainActive.getLast? = some hash →
      ctx.readBlockFromDisk hash = some block → ∀ tx ∈ block.vtx, KeptErasing ctx state keeps tx)
    (before : keeps state.zerocoinDB) : keeps (state.disconnectTip ctx vstate).1.zerocoinDB := by
  unfold ChainState.disconnectTip
  split
  · exact before
  · rename_i hash tip
    split
    · exact before
    · rename_i block disk
      have erased : keeps (state.disconnectBlock ctx vstate block hash
          state.coinsTip).1.zerocoinDB :=
        keeps_disconnectBlock (kept hash block tip disk) before
      split
      · rename_i went
        rw [went] at erased
        exact erased
      · rename_i went
        rw [went] at erased
        exact erased
      · rename_i went
        rw [went] at erased
        exact erased

end

/-! ## What the loop comes to erase -/

/-- Keys of records that are erased, in order. -/
structure ErasedKeys where
  spends : List Nat := []
  mints : List Nat := []

namespace ErasedKeys

def append (first second : ErasedKeys) : ErasedKeys :=
  ⟨first.spends ++ second.spends, first.mints ++ second.mints⟩

/-- Erase the records. -/
def eraseFrom (keys : ErasedKeys) (db : ZerocoinDB) : ZerocoinDB where
  spends := keys.spends.foldl Std.ExtTreeMap.erase db.spends
  mints := keys.mints.foldl Std.ExtTreeMap.erase db.mints

/-- Keys are erased one list after the other. -/
theorem eraseFrom_append (first second : ErasedKeys) (db : ZerocoinDB) :
    (first.append second).eraseFrom db = second.eraseFrom (first.eraseFrom db) := by
  simp only [append, eraseFrom, List.foldl_append]

/-- An erased key is gone, and the others stay. -/
theorem getElem?_foldl_erase (keys : List Nat) (map : Std.ExtTreeMap Nat Uint256) (key : Nat) :
    (keys.foldl Std.ExtTreeMap.erase map)[key]? = if key ∈ keys then none else map[key]? := by
  induction keys generalizing map with
  | nil => simp
  | cons first rest ih =>
      rw [List.foldl_cons, ih, Std.ExtTreeMap.getElem?_erase]
      by_cases here : key = first
      · simp [here]
      · have different : ¬ compare first key = .eq := by
          simp [Ne.symm here]
        simp [here, different]

/-- The database is as before exactly if no key had a record. -/
theorem eraseFrom_eq_self_iff (keys : ErasedKeys) (db : ZerocoinDB) :
    keys.eraseFrom db = db ↔ (∀ key ∈ keys.spends, db.spends[key]? = none) ∧
      ∀ key ∈ keys.mints, db.mints[key]? = none := by
  have maps : ∀ (erased : List Nat) (map : Std.ExtTreeMap Nat Uint256),
      erased.foldl Std.ExtTreeMap.erase map = map ↔ ∀ key ∈ erased, map[key]? = none := by
    intro erased map
    constructor
    · intro same key member
      rw [← same, getElem?_foldl_erase, if_pos member]
    · intro absent
      apply Std.ExtTreeMap.ext_getElem?
      intro key
      rw [getElem?_foldl_erase]
      split
      · rename_i member
        exact (absent key member).symm
      · rfl
  rw [← maps, ← maps]
  cases db
  simp [eraseFrom]

end ErasedKeys

namespace ChainContext

variable (ctx : ChainContext)

/-- The keys of the spends up to the first that cannot be read, and whether there is
none such. -/
def readSpendKeys : List CTxIn → List Nat × Bool
  | [] => ([], true)
  | txin :: rest =>
      match ctx.spendKey txin with
      | none => ([], false)
      | some key => (key :: (readSpendKeys rest).1, (readSpendKeys rest).2)

/-- The keys of the mints up to the first that cannot be read, and whether there is none
such. -/
def readMintKeys : List CTxOut → List Nat × Bool
  | [] => ([], true)
  | txout :: rest =>
      match txOutToPublicCoin txout with
      | none => ([], false)
      | some coin =>
          (ctx.hashBignum coin.value :: (readMintKeys rest).1, (readMintKeys rest).2)

/-- What erasing the zerocoins of a transaction comes to. -/
def erasedOf (tx : CTransaction) : ErasedKeys :=
  let spends := ctx.readSpendKeys (tx.vin.filter CTxIn.isZerocoinSpend)
  ⟨spends.1, if spends.2 then (ctx.readMintKeys (tx.vout.filter CTxOut.isZerocoinMint)).1 else []⟩

end ChainContext

section

variable {ctx : ChainContext} {state : ChainState} {vstate : CValidationState}

/-- The spends that are erased are those that can be read. -/
theorem eraseSpends_eq (ctx : ChainContext) (state : ChainState) (vin : List CTxIn)
    (db : ZerocoinDB) :
    (ChainState.eraseSpends ctx state vin db).1 =
        (⟨(ctx.readSpendKeys vin).1, []⟩ : ErasedKeys).eraseFrom db ∧
      ((ctx.readSpendKeys vin).2 = true ↔
          (ChainState.eraseSpends ctx state vin db).2 = .ok ()) := by
  induction vin generalizing db with
  | nil => exact ⟨rfl, by simp [ChainContext.readSpendKeys, ChainState.eraseSpends]⟩
  | cons txin rest ih =>
      have key : ctx.spendKey txin = _ := spendKey_eq ctx state txin
      unfold ChainState.eraseSpends ChainContext.readSpendKeys
      cases read : txInToZerocoinSpend ctx.validation.lib (ctx.validationAt state).useModulusV1
        txin with
      | none =>
          rw [read] at key
          simp only [key, Option.map_none]
          exact ⟨rfl, by simp⟩
      | some spend =>
          rw [read] at key
          simp only [key, Option.map_some]
          exact ih (db.eraseCoinSpend (ctx.hashBignum spend.coinSerialNumber))

/-- The mints that are erased are those that can be read. -/
theorem eraseMints_eq (vout : List CTxOut) (db : ZerocoinDB) :
    (ChainState.eraseMints ctx vstate vout db).1 =
      (⟨[], (ctx.readMintKeys vout).1⟩ : ErasedKeys).eraseFrom db := by
  induction vout generalizing db with
  | nil => rfl
  | cons txout rest ih =>
      unfold ChainState.eraseMints ChainContext.readMintKeys
      cases read : txOutToPublicCoin txout with
      | none => rfl
      | some coin => exact ih (db.eraseCoinMint (ctx.hashBignum coin.value))

/-- The zerocoins of a transaction are erased. -/
theorem eraseZerocoins_eq (tx : CTransaction) (db : ZerocoinDB) :
    (ChainState.eraseZerocoins ctx state vstate tx db).1 = (ctx.erasedOf tx).eraseFrom db := by
  obtain ⟨erased, complete⟩ :=
    eraseSpends_eq ctx state (tx.vin.filter CTxIn.isZerocoinSpend) db
  unfold ChainState.eraseZerocoins ChainContext.erasedOf
  rcases spending : ChainState.eraseSpends ctx state (tx.vin.filter CTxIn.isZerocoinSpend) db with
    ⟨after, failure | _⟩
  · rw [spending] at erased complete
    have stopped : (ctx.readSpendKeys (tx.vin.filter CTxIn.isZerocoinSpend)).2 = false := by
      rw [← Bool.not_eq_true]
      simp [complete]
    simp only [stopped, Bool.false_eq_true, if_false]
    exact erased
  · rw [spending] at erased complete
    have all : (ctx.readSpendKeys (tx.vin.filter CTxIn.isZerocoinSpend)).2 = true := by
      simp [complete]
    have erased : after = _ := erased
    simp only [all, if_true]
    rw [eraseMints_eq, erased]
    rfl

end

namespace ChainState

variable (ctx : ChainContext) (state : ChainState) (vstate : CValidationState)

/-- What the loop of `DisconnectBlock` comes to erase. -/
def erasedRounds (nHeight : Int) : List (CTransaction × Option CTxUndo) → DisconnectState →
    ErasedKeys
  | [], _ => {}
  | (tx, _) :: rest, current =>
      match (disconnectRounds ctx state vstate nHeight rest current).2 with
      | .error _ => erasedRounds nHeight rest current
      | .ok () => (erasedRounds nHeight rest current).append (ctx.erasedOf tx)

/-- What `DisconnectBlock` comes to erase. -/
def erasedBlock (block : CBlock) (hash : Uint256) (view : CoinsView) : ErasedKeys :=
  match state.mapBlockIndex hash with
  | none => {}
  | some pindex =>
      if hash ≠ view.hashBlock then {}
      else match pindex.vtxundo, pindex.hashPrev with
        | some vtxundo, some _ =>
            if vtxundo.length + 1 ≠ block.vtx.length then {}
            else erasedRounds ctx state vstate pindex.nHeight
              (block.vtx.zip (none :: vtxundo.map some))
              { view := view.coins, zerocoinDB := state.zerocoinDB }
        | _, _ => {}

end ChainState

section

variable {ctx : ChainContext} {state : ChainState} {vstate : CValidationState}

/-- Undoing a transaction erases its zerocoins. -/
theorem zerocoinDB_disconnectRound {nHeight : Int} {tx : CTransaction} {txundo : Option CTxUndo}
    {current : DisconnectState} :
    (ChainState.disconnectRound ctx state vstate nHeight tx txundo current).1.zerocoinDB =
      (ctx.erasedOf tx).eraseFrom current.zerocoinDB := by
  have erased : (ChainState.eraseZerocoins ctx state vstate tx current.zerocoinDB).1 = _ :=
    eraseZerocoins_eq tx current.zerocoinDB
  unfold ChainState.disconnectRound
  dsimp only
  split
  · exact erased
  · split
    · exact erased
    · rename_i restored went
      unfold ChainState.restoreTx at went
      split at went
      · split at went
        · cases went
        · split at went
          · cases went
          · cases went
            rw [zerocoinDB_restoreInputs]
            exact erased
      · cases went
        exact erased

/-- **The loop of `DisconnectBlock`** erases these records and no others. -/
theorem zerocoinDB_disconnectRounds {nHeight : Int} {txs : List (CTransaction × Option CTxUndo)}
    {current : DisconnectState} :
    (ChainState.disconnectRounds ctx state vstate nHeight txs current).1.zerocoinDB =
      (ChainState.erasedRounds ctx state vstate nHeight txs current).eraseFrom
        current.zerocoinDB := by
  induction txs with
  | nil => rfl
  | cons entry rest ih =>
      obtain ⟨tx, txundo⟩ := entry
      unfold ChainState.disconnectRounds ChainState.erasedRounds
      rcases later : ChainState.disconnectRounds ctx state vstate nHeight rest current with
        ⟨after, failure | _⟩
      · rw [later] at ih
        exact ih
      · rw [later] at ih
        dsimp only at ih ⊢
        rw [zerocoinDB_disconnectRound, ErasedKeys.eraseFrom_append, ih]

/-- **`DisconnectBlock`** erases these records and no others, whether or not it goes
through. -/
theorem zerocoinDB_disconnectBlock (block : CBlock) (hash : Uint256) (view : CoinsView) :
    (state.disconnectBlock ctx vstate block hash view).1.zerocoinDB =
      (state.erasedBlock ctx vstate block hash view).eraseFrom state.zerocoinDB := by
  unfold ChainState.disconnectBlock ChainState.erasedBlock
  cases index : state.mapBlockIndex hash with
  | none => rfl
  | some pindex =>
      dsimp only
      split
      · rfl
      · cases undo : pindex.vtxundo with
        | none => rfl
        | some vtxundo =>
            cases parent : pindex.hashPrev with
            | none => rfl
            | some hashPrev =>
                dsimp only
                split
                · rfl
                · split
                  · exact zerocoinDB_disconnectRounds
                  · exact zerocoinDB_disconnectRounds
                  · rw [ChainState.eraseCheckpointOf_eq]
                    exact zerocoinDB_disconnectRounds

end

end GiantCore
