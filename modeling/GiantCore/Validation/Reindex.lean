import GiantCore.Validation.VerifyDB

/-! # Rebuilding the zerocoin database

`ReindexZerocoinDB` wipes the records of spends and mints and writes those of the active
chain again, in batches of a hundred blocks. A record has the hash of a serial or of a coin
as its key and a transaction as its value. `WipeCoins` collects the values and erases them
as if they were keys, so it leaves nearly every record where it is: what was there before
and is not on the chain stays.
-/

namespace GiantCore

namespace ZerocoinDB

/-- The records of one type without those whose key is the value of a record. -/
def wipe (map : Std.ExtTreeMap Nat Uint256) : Std.ExtTreeMap Nat Uint256 :=
  let setDelete := map.toList.map Prod.snd
  (setDelete.map BitVec.toNat).foldl Std.ExtTreeMap.erase map

/-- `WipeCoins`. -/
def wipeCoins (strType : String) (db : ZerocoinDB) : ZerocoinDB × Bool :=
  if strType ≠ "spends" ∧ strType ≠ "mints" then (db, false)
  else if strType = "spends" then ({ db with spends := wipe db.spends }, true)
  else ({ db with mints := wipe db.mints }, true)

end ZerocoinDB

/-- The database and the records that wait for the next batch. -/
structure ReindexState where
  zerocoinDB : ZerocoinDB
  vSpendInfo : List (CoinSpend × Uint256) := []
  vMintInfo : List (Nat × Uint256) := []

/-- Both batches are written and cleared. -/
def ReindexState.flush (pending : ReindexState) : ReindexState where
  zerocoinDB := (pending.zerocoinDB.writeCoinSpendBatch pending.vSpendInfo).writeCoinMintBatch
    pending.vMintInfo

/-- How `ReindexZerocoinDB` ends. -/
inductive ReindexOutcome where
  | returned (text : String)
  /-- A spend cannot be read. -/
  | thrown
  deriving DecidableEq, Repr

namespace ChainContext

variable (ctx : ChainContext) (state : ChainState)

/-- `TxInToZerocoinSpend`, with the serial by its hash. -/
def coinSpend (txin : CTxIn) : Option CoinSpend :=
  (txInToZerocoinSpend ctx.validation.lib (ctx.validationAt state).useModulusV1 txin).map
    fun spend => ⟨ctx.hashBignum spend.coinSerialNumber, spend.denomination.toInt⟩

/-- The hash of the coin of a mint. The result of `TxOutToPublicCoin` is not looked at, and
where it fails the coin has no value. -/
def mintKey (out : CTxOut) : Nat :=
  ctx.hashBignum ((txOutToPublicCoin out).elim 0 PublicCoin.value)

/-- The spends and mints of a transaction are recorded once for each of its inputs. -/
def reindexTx (pending : ReindexState) (tx : CTransaction) : Option ReindexState :=
  if tx.isCoinBase || !tx.containsZerocoins then some pending
  else do
    let spends ← (tx.vin.filter CTxIn.isZerocoinSpend).mapM (ctx.coinSpend state)
    let mints := (tx.vout.filter CTxOut.isZerocoinMint).map ctx.mintKey
    return { pending with
      vSpendInfo := pending.vSpendInfo ++
        tx.vin.flatMap fun _ => spends.map fun spend => (spend, tx.hash)
      vMintInfo := pending.vMintInfo ++
        tx.vin.flatMap fun _ => mints.map fun key => (key, tx.hash) }

/-- The loop over the blocks from a height on. -/
def reindexBlocks : Int → List Uint256 → ReindexState → ZerocoinDB × ReindexOutcome
  | _, [], pending => (pending.flush.zerocoinDB, .returned "")
  | nHeight, hash :: rest, pending =>
      match ctx.readBlockFromDisk hash with
      | none => (pending.zerocoinDB, .returned "Reindexing zerocoin failed")
      | some block =>
          match block.vtx.foldlM (ctx.reindexTx state) pending with
          | none => (pending.zerocoinDB, .thrown)
          | some pending =>
              reindexBlocks (nHeight + 1) rest
                (if nHeight.tmod 100 = 0 then pending.flush else pending)

/-- `ReindexZerocoinDB`: the database after it, and how it ends. -/
def reindexZerocoinDB : ZerocoinDB × ReindexOutcome :=
  let (db, wiped) := state.zerocoinDB.wipeCoins "spends"
  if !wiped then (db, .returned "Failed to wipe zerocoinDB")
  else
    let (db, wiped) := db.wipeCoins "mints"
    if !wiped then (db, .returned "Failed to wipe zerocoinDB")
    else
      ctx.reindexBlocks state ctx.params.nZerocoinStartHeight
        (state.chainActive.drop ctx.params.nZerocoinStartHeight.toNat) { zerocoinDB := db }

/-- The blocks from `Zerocoin_StartHeight` on. -/
def zerocoinChain : List Uint256 :=
  state.chainActive.drop ctx.params.nZerocoinStartHeight.toNat

/-- **The database has exactly the records of the chain**: a key has the transaction of a
spend or mint of the chain, and no other. -/
structure HoldsExactly (db : ZerocoinDB) : Prop where
  spends : ∀ key txid, db.spends[key]? = some txid ↔
    ctx.RecordIn ctx.blockSpendRecords (ctx.zerocoinChain state) key txid
  mints : ∀ key txid, db.mints[key]? = some txid ↔
    ctx.RecordIn ctx.blockMintRecords (ctx.zerocoinChain state) key txid

/-- What `CheckTransaction` and `ConnectBlock` require of the transactions of a block: they
have inputs, and every mint is a coin. -/
def MintsDecode : Prop :=
  ∀ hash ∈ ctx.zerocoinChain state, ∀ block, ctx.readBlockFromDisk hash = some block →
    ∀ tx ∈ block.vtx, tx.vin ≠ [] ∧ ∀ out ∈ tx.vout, out.isZerocoinMint = true →
      (txOutToPublicCoin out).isSome = true

end ChainContext

/-! ## Wiping -/

namespace ZerocoinDB

/-- The key is the value of a record of the same type. -/
def IsValue (map : Std.ExtTreeMap Nat Uint256) (key : Nat) : Prop :=
  ∃ (other : Nat) (txid : Uint256), map[other]? = some txid ∧ txid.toNat = key

theorem mem_wiped_iff (map : Std.ExtTreeMap Nat Uint256) (key : Nat) :
    key ∈ (map.toList.map Prod.snd).map BitVec.toNat ↔ IsValue map key := by
  unfold IsValue
  constructor
  · intro member
    obtain ⟨txid, value, rfl⟩ := List.mem_map.mp member
    obtain ⟨⟨other, txid⟩, entry, rfl⟩ := List.mem_map.mp value
    exact ⟨other, txid, Std.ExtTreeMap.mem_toList_iff_getElem?_eq_some.mp entry, rfl⟩
  · rintro ⟨other, txid, found, rfl⟩
    apply List.mem_map_of_mem
    exact List.mem_map.mpr
      ⟨(other, txid), Std.ExtTreeMap.mem_toList_iff_getElem?_eq_some.mpr found, rfl⟩

/-- A record goes exactly if its key is the value of one. -/
theorem wipe_eq_empty_iff (map : Std.ExtTreeMap Nat Uint256) :
    wipe map = ∅ ↔ ∀ key txid, map[key]? = some txid → IsValue map key := by
  constructor
  · intro empty key txid found
    by_contra kept
    have after : (wipe map)[key]? = some txid := by
      rw [wipe, ErasedKeys.getElem?_foldl_erase, if_neg (mt (mem_wiped_iff map key).mp kept), found]
    rw [empty] at after
    simp at after
  · intro values
    apply Std.ExtTreeMap.ext_getElem?
    intro key
    rw [wipe, ErasedKeys.getElem?_foldl_erase]
    split
    · simp
    · rename_i kept
      rw [mem_wiped_iff] at kept
      cases found : map[key]? with
      | none => simp
      | some txid => exact absurd (values key txid found) kept

/-- Records that are erased and written: what is there afterwards is what was written
exactly if it is one value for each key and every other record was erased. -/
theorem exact_iff {records : Nat → Uint256 → Prop} (map : Std.ExtTreeMap Nat Uint256)
    (erased : List Nat) {written : List (Nat × Uint256)}
    (known : ∀ key txid, (key, txid) ∈ written ↔ records key txid) :
    (∀ key txid, (written.foldl (fun map entry => map.insert entry.1 entry.2)
        (erased.foldl Std.ExtTreeMap.erase map))[key]? = some txid ↔ records key txid) ↔
      (∀ key first second, records key first → records key second → first = second) ∧
        ∀ key txid, map[key]? = some txid → key ∈ erased ∨ ∃ other, records key other := by
  constructor
  · intro exactly
    refine ⟨?_, ?_⟩
    · intro key first second one two
      have same := ((exactly key first).mpr one).symm.trans ((exactly key second).mpr two)
      exact Option.some.inj same
    · intro key txid found
      by_contra neither
      rw [not_or] at neither
      have absent : key ∉ written.map Prod.fst := by
        intro member
        obtain ⟨entry, present, rfl⟩ := List.mem_map.mp member
        exact neither.2 ⟨entry.2, (known _ _).mp present⟩
      apply neither.2
      refine ⟨txid, (exactly key txid).mp ?_⟩
      rw [getElem?_foldl_insert_of_not_mem _ absent, ErasedKeys.getElem?_foldl_erase,
        if_neg neither.1, found]
  · rintro ⟨single, stale⟩ key txid
    by_cases present : key ∈ written.map Prod.fst
    · obtain ⟨other, member, found⟩ :=
        getElem?_foldl_insert_of_mem (erased.foldl Std.ExtTreeMap.erase map) present
      have record := (known key other).mp member
      rw [found, Option.some.injEq]
      constructor
      · rintro rfl
        exact record
      · intro also
        exact single key other txid record also
    · have unrecorded : ∀ other, ¬ records key other := by
        intro other record
        exact present (List.mem_map.mpr ⟨(key, other), (known key other).mpr record, rfl⟩)
      rw [getElem?_foldl_insert_of_not_mem _ present, ErasedKeys.getElem?_foldl_erase]
      refine iff_of_false ?_ (unrecorded txid)
      split
      · nofun
      · rename_i kept
        intro found
        obtain ⟨other, record⟩ := (stale key txid found).resolve_left kept
        exact unrecorded other record

end ZerocoinDB

/-! ## The loop -/

namespace ChainContext

variable (ctx : ChainContext) (state : ChainState)

/-- The records that are written for a transaction. -/
def spendsWritten (tx : CTransaction) : List (Nat × Uint256) :=
  tx.vin.flatMap fun _ => ctx.spendRecords tx

def mintsWritten (tx : CTransaction) : List (Nat × Uint256) :=
  tx.vin.flatMap fun _ =>
    ((tx.vout.filter CTxOut.isZerocoinMint).map ctx.mintKey).map fun key => (key, tx.hash)

/-- Records are written over those of a database. -/
def writeOver (spends mints : List (Nat × Uint256)) (db : ZerocoinDB) : ZerocoinDB where
  spends := spends.foldl (fun map entry => map.insert entry.1 entry.2) db.spends
  mints := mints.foldl (fun map entry => map.insert entry.1 entry.2) db.mints

variable {ctx state}

theorem writeOver_append (spends spends' mints mints' : List (Nat × Uint256)) (db : ZerocoinDB) :
    writeOver (spends ++ spends') (mints ++ mints') db =
      writeOver spends' mints' (writeOver spends mints db) := by
  simp only [writeOver, List.foldl_append]

theorem zerocoinDB_flush (pending : ReindexState) :
    pending.flush.zerocoinDB = writeOver (pending.vSpendInfo.map fun entry =>
      (entry.1.coinSerialNumber, entry.2)) pending.vMintInfo pending.zerocoinDB := by
  simp only [ReindexState.flush, ZerocoinDB.writeCoinSpendBatch, ZerocoinDB.writeCoinMintBatch,
    writeOver, List.foldl_map]

theorem flush_flush (pending : ReindexState) :
    pending.flush.flush.zerocoinDB = pending.flush.zerocoinDB := rfl

/-- The serials of the spends that can be read are the keys of their records. -/
theorem spendRecords_of_coinSpend {tx : CTransaction} {spends : List CoinSpend}
    (read : (tx.vin.filter CTxIn.isZerocoinSpend).mapM (ctx.coinSpend state) = some spends) :
    (spends.map fun spend => (spend.coinSerialNumber, tx.hash)) = ctx.spendRecords tx := by
  have keys : ∀ txins : List CTxIn, ∀ spends, txins.mapM (ctx.coinSpend state) = some spends →
      spends.map CoinSpend.coinSerialNumber = txins.filterMap ctx.spendKey := by
    intro txins
    induction txins with
    | nil =>
        intro spends done
        cases done
        rfl
    | cons txin rest ih =>
        intro spends done
        rw [List.mapM_cons] at done
        obtain ⟨first, here, others⟩ := Option.bind_eq_some_iff.mp done
        obtain ⟨later, tail, same⟩ := Option.bind_eq_some_iff.mp others
        cases same
        have key : ctx.spendKey txin = some first.coinSerialNumber := by
          obtain ⟨spend, decoded, rfl⟩ := Option.map_eq_some_iff.mp here
          obtain ⟨data, parsed, rfl⟩ := Option.map_eq_some_iff.mp decoded
          rw [spendKey, ValidationContext.spendSerial, parsed]
          rfl
        rw [List.map_cons, List.filterMap_cons_some key, ih later tail]
  rw [spendRecords, ← keys _ _ read, List.map_map]
  rfl

/-- A transaction without zerocoins has nothing to record. -/
theorem written_of_plain {tx : CTransaction} (plain : tx.containsZerocoins = false) :
    ctx.spendsWritten tx = [] ∧ ctx.mintsWritten tx = [] := by
  rw [CTransaction.containsZerocoins, Bool.or_eq_false_iff] at plain
  have spends : tx.vin.filter CTxIn.isZerocoinSpend = [] := by
    rw [List.filter_eq_nil_iff]
    exact List.any_eq_false.mp plain.1
  have mints : tx.vout.filter CTxOut.isZerocoinMint = [] := by
    rw [List.filter_eq_nil_iff]
    exact List.any_eq_false.mp plain.2
  constructor
  · simp [spendsWritten, spendRecords, spends]
  · simp [mintsWritten, mints]

/-- A coinbase is a transaction without zerocoins. -/
theorem plain_of_isCoinBase {tx : CTransaction} (coinBase : tx.isCoinBase = true) :
    tx.containsZerocoins = false := by
  unfold CTransaction.isCoinBase at coinBase
  split at coinBase
  · rw [Bool.and_eq_true] at coinBase
    exact Bool.not_eq_true' _ ▸ coinBase.2
  · cases coinBase

/-- One transaction adds its records to those that wait. -/
theorem flush_reindexTx {pending after : ReindexState} {tx : CTransaction}
    (went : ctx.reindexTx state pending tx = some after) :
    after.flush.zerocoinDB =
      writeOver (ctx.spendsWritten tx) (ctx.mintsWritten tx) pending.flush.zerocoinDB := by
  unfold reindexTx at went
  split at went
  · rename_i skipped
    have plain : tx.containsZerocoins = false := by
      rw [Bool.or_eq_true] at skipped
      rcases skipped with coinBase | none
      · exact plain_of_isCoinBase coinBase
      · exact Bool.not_eq_true' _ ▸ none
    have nothing : ctx.spendsWritten tx = [] ∧ ctx.mintsWritten tx = [] := written_of_plain plain
    cases went
    rw [nothing.1, nothing.2]
    rfl
  · obtain ⟨spends, read, same⟩ := Option.bind_eq_some_iff.mp went
    cases same
    rw [zerocoinDB_flush, zerocoinDB_flush, ← writeOver_append]
    congr 1
    rw [List.map_append, List.map_flatMap, spendsWritten, ← spendRecords_of_coinSpend read]
    simp only [List.map_map]
    rfl

theorem flush_reindexTxs {vtx : List CTransaction} {pending after : ReindexState}
    (went : vtx.foldlM (ctx.reindexTx state) pending = some after) :
    after.flush.zerocoinDB = writeOver (vtx.flatMap ctx.spendsWritten)
      (vtx.flatMap ctx.mintsWritten) pending.flush.zerocoinDB := by
  induction vtx generalizing pending with
  | nil =>
      cases went
      rfl
  | cons tx rest ih =>
      rw [List.foldlM_cons] at went
      obtain ⟨next, first, later⟩ := Option.bind_eq_some_iff.mp went
      rw [ih later, flush_reindexTx first, List.flatMap_cons, List.flatMap_cons, writeOver_append]

/-- **The loop** writes the records of all blocks, each of which it reads. -/
theorem reindexBlocks_eq_ok {nHeight : Int} {hashes : List Uint256} {pending : ReindexState}
    {db : ZerocoinDB} (went : ctx.reindexBlocks state nHeight hashes pending = (db, .returned "")) :
    ∃ blocks, hashes.mapM ctx.readBlockFromDisk = some blocks ∧
      db = writeOver (blocks.flatMap fun block => block.vtx.flatMap ctx.spendsWritten)
        (blocks.flatMap fun block => block.vtx.flatMap ctx.mintsWritten)
        pending.flush.zerocoinDB := by
  induction hashes generalizing nHeight pending with
  | nil =>
      cases went
      exact ⟨[], rfl, rfl⟩
  | cons hash rest ih =>
      unfold reindexBlocks at went
      split at went
      · have text := congrArg Prod.snd went
        simp at text
      · rename_i block disk
        split at went
        · cases went
        · rename_i next scanned
          obtain ⟨blocks, read, wrote⟩ := ih went
          have same : (if nHeight.tmod 100 = 0 then next.flush else next).flush.zerocoinDB =
              next.flush.zerocoinDB := by
            split
            · exact flush_flush next
            · rfl
          refine ⟨block :: blocks, ?_, ?_⟩
          · rw [List.mapM_cons, disk, read]
            rfl
          · rw [wrote, same, flush_reindexTxs scanned, List.flatMap_cons, List.flatMap_cons,
              writeOver_append]

/-! ## The records of the chain -/

/-- The blocks that are read are those of the hashes. -/
theorem mem_of_mapM_read {hashes : List Uint256} {blocks : List CBlock}
    (read : hashes.mapM ctx.readBlockFromDisk = some blocks) {block : CBlock} :
    block ∈ blocks ↔ ∃ hash ∈ hashes, ctx.readBlockFromDisk hash = some block := by
  induction hashes generalizing blocks with
  | nil =>
      cases read
      simp
  | cons hash rest ih =>
      rw [List.mapM_cons] at read
      obtain ⟨first, disk, others⟩ := Option.bind_eq_some_iff.mp read
      obtain ⟨later, tail, same⟩ := Option.bind_eq_some_iff.mp others
      cases same
      simp only [List.mem_cons, ih tail, exists_eq_or_imp, disk, Option.some.injEq]
      rw [eq_comm]

/-- The same records are written again for every input. -/
theorem mem_flatMap_const {records : List (Nat × Uint256)} {entry : Nat × Uint256}
    {tx : CTransaction} (inputs : tx.vin ≠ []) :
    entry ∈ (tx.vin.flatMap fun _ => records) ↔ entry ∈ records := by
  rw [List.mem_flatMap]
  constructor
  · rintro ⟨-, -, member⟩
    exact member
  · intro member
    obtain ⟨txin, present⟩ := List.exists_mem_of_ne_nil _ inputs
    exact ⟨txin, present, member⟩

/-- The coins of mints that decode. -/
theorem map_mintKey {outs : List CTxOut}
    (decode : ∀ out ∈ outs, (txOutToPublicCoin out).isSome = true) :
    outs.map ctx.mintKey =
      (outs.filterMap txOutToPublicCoin).map fun coin => ctx.hashBignum coin.value := by
  induction outs with
  | nil => rfl
  | cons out rest ih =>
      rw [List.forall_mem_cons] at decode
      obtain ⟨coin, decoded⟩ := Option.isSome_iff_exists.mp decode.1
      rw [List.map_cons, List.filterMap_cons_some decoded, List.map_cons, ih decode.2, mintKey,
        decoded]
      rfl

/-- Where the mints decode, the records of the chain are written, and nothing else. -/
theorem mem_written_iff (decode : ctx.MintsDecode state) {blocks : List CBlock}
    (read : (ctx.zerocoinChain state).mapM ctx.readBlockFromDisk = some blocks) (key : Nat)
    (txid : Uint256) :
    ((key, txid) ∈ (blocks.flatMap fun block => block.vtx.flatMap ctx.spendsWritten) ↔
      ctx.RecordIn ctx.blockSpendRecords (ctx.zerocoinChain state) key txid) ∧
    ((key, txid) ∈ (blocks.flatMap fun block => block.vtx.flatMap ctx.mintsWritten) ↔
      ctx.RecordIn ctx.blockMintRecords (ctx.zerocoinChain state) key txid) := by
  have listed : ∀ (written records : CTransaction → List (Nat × Uint256)),
      (∀ tx : CTransaction, tx.vin ≠ [] → (∀ out ∈ tx.vout, out.isZerocoinMint = true →
        (txOutToPublicCoin out).isSome = true) → ((key, txid) ∈ written tx ↔
          (key, txid) ∈ records tx)) →
      ((key, txid) ∈ (blocks.flatMap fun block => block.vtx.flatMap written) ↔
        ctx.RecordIn (fun block => block.vtx.flatMap records) (ctx.zerocoinChain state) key
          txid) := by
    intro written records each
    have sound : ∀ block ∈ blocks, ∀ tx ∈ block.vtx,
        ((key, txid) ∈ written tx ↔ (key, txid) ∈ records tx) := by
      intro block member tx inside
      obtain ⟨hash, onChain, disk⟩ := (mem_of_mapM_read read).mp member
      obtain ⟨inputs, mints⟩ := decode hash onChain block disk tx inside
      exact each tx inputs mints
    unfold RecordIn
    simp only [List.mem_flatMap]
    constructor
    · rintro ⟨block, member, tx, inside, entry⟩
      obtain ⟨hash, onChain, disk⟩ := (mem_of_mapM_read read).mp member
      exact ⟨hash, onChain, block, disk, tx, inside, (sound block member tx inside).mp entry⟩
    · rintro ⟨hash, onChain, block, disk, tx, inside, entry⟩
      have member := (mem_of_mapM_read read).mpr ⟨hash, onChain, disk⟩
      exact ⟨block, member, tx, inside, (sound block member tx inside).mpr entry⟩
  constructor
  · exact listed ctx.spendsWritten ctx.spendRecords fun tx inputs _ => mem_flatMap_const inputs
  · refine listed ctx.mintsWritten ctx.mintRecords ?_
    intro tx inputs mints
    have coins : ∀ out ∈ tx.vout.filter CTxOut.isZerocoinMint,
        (txOutToPublicCoin out).isSome = true := by
      intro out member
      obtain ⟨inside, mint⟩ := List.mem_filter.mp member
      exact mints out inside mint
    rw [mintsWritten, map_mintKey coins, List.map_map]
    exact mem_flatMap_const inputs

/-- What `ReindexZerocoinDB` leaves where it returns the empty string. -/
theorem reindexZerocoinDB_eq_ok {db : ZerocoinDB}
    (went : ctx.reindexZerocoinDB state = (db, .returned "")) :
    ∃ blocks, (ctx.zerocoinChain state).mapM ctx.readBlockFromDisk = some blocks ∧
      db = writeOver (blocks.flatMap fun block => block.vtx.flatMap ctx.spendsWritten)
        (blocks.flatMap fun block => block.vtx.flatMap ctx.mintsWritten)
        ⟨ZerocoinDB.wipe state.zerocoinDB.spends, ZerocoinDB.wipe state.zerocoinDB.mints⟩ := by
  have wiped : ctx.reindexZerocoinDB state = ctx.reindexBlocks state
      ctx.params.nZerocoinStartHeight (ctx.zerocoinChain state)
      { zerocoinDB := ⟨ZerocoinDB.wipe state.zerocoinDB.spends,
          ZerocoinDB.wipe state.zerocoinDB.mints⟩ } := by
    simp [reindexZerocoinDB, ZerocoinDB.wipeCoins, zerocoinChain]
  rw [wiped] at went
  exact reindexBlocks_eq_ok went

/-- The records of one type can be rebuilt: the chain has one transaction for each key, and a
record from before is of a key on the chain or has the value of a record as its key. -/
def Rebuildable (ctx : ChainContext) (state : ChainState)
    (records : CBlock → List (Nat × Uint256)) (map : Std.ExtTreeMap Nat Uint256) : Prop :=
  (∀ key first second, ctx.RecordIn records (ctx.zerocoinChain state) key first →
    ctx.RecordIn records (ctx.zerocoinChain state) key second → first = second) ∧
  ∀ key txid, map[key]? = some txid → ZerocoinDB.IsValue map key ∨
    ∃ other, ctx.RecordIn records (ctx.zerocoinChain state) key other

end ChainContext

/-- **Reindexing rebuilds the zerocoin database exactly** if and only if each key has one
transaction on the chain and every record from before is written again or has the value of a
record of its type as its key. `WipeCoins` removes every record of its type exactly if all
have such keys. -/
theorem reindex_exact_iff (ctx : ChainContext) (state : ChainState) (db : ZerocoinDB)
    (decode : ctx.MintsDecode state) (went : ctx.reindexZerocoinDB state = (db, .returned "")) :
    (ctx.HoldsExactly state db ↔
      ctx.Rebuildable state ctx.blockSpendRecords state.zerocoinDB.spends ∧
        ctx.Rebuildable state ctx.blockMintRecords state.zerocoinDB.mints) ∧
    ∀ prior : ZerocoinDB,
      ((prior.wipeCoins "spends").1.spends = ∅ ↔
        ∀ key txid, prior.spends[key]? = some txid → ZerocoinDB.IsValue prior.spends key) ∧
      ((prior.wipeCoins "mints").1.mints = ∅ ↔
        ∀ key txid, prior.mints[key]? = some txid → ZerocoinDB.IsValue prior.mints key) := by
  obtain ⟨blocks, read, rfl⟩ := ChainContext.reindexZerocoinDB_eq_ok went
  have records := ChainContext.mem_written_iff decode read
  constructor
  · have spends := ZerocoinDB.exact_iff state.zerocoinDB.spends
      ((state.zerocoinDB.spends.toList.map Prod.snd).map BitVec.toNat)
      fun key txid => (records key txid).1
    have mints := ZerocoinDB.exact_iff state.zerocoinDB.mints
      ((state.zerocoinDB.mints.toList.map Prod.snd).map BitVec.toNat)
      fun key txid => (records key txid).2
    simp only [ZerocoinDB.mem_wiped_iff] at spends mints
    constructor
    · intro exactly
      exact ⟨spends.mp exactly.spends, mints.mp exactly.mints⟩
    · rintro ⟨rebuiltSpends, rebuiltMints⟩
      exact ⟨spends.mpr rebuiltSpends, mints.mpr rebuiltMints⟩
  · intro prior
    constructor
    · rw [← ZerocoinDB.wipe_eq_empty_iff]
      rfl
    · rw [← ZerocoinDB.wipe_eq_empty_iff]
      rfl

/-! ## A chain with one mint -/

/-- The block at height 300 has a mint. -/
def mintAt300 (nHeight : Nat) : CBlock :=
  { blockAt (BitVec.ofNat 256 (100 + nHeight)) (BitVec.ofNat 256 (99 + nHeight))
      (regtestCoinBase nHeight ::
        if nHeight = 300 then
          [{ hash := 9000, vin := [{ prevout := ⟨1001, 0⟩, scriptSig := [1, 2] }]
             vout := [⟨COIN, [0xc1, 0, 0, 0, 0, 0, 7], -10⟩] }]
        else []) with
    nVersion := 5 }

/-- The chain of these blocks, and a zerocoin database. -/
def reindexedState (zerocoinDB : ZerocoinDB) : ChainState :=
  { ChainState.regtest mintAt300 with
    chainActive := (List.range 301).map fun nHeight => BitVec.ofNat 256 (100 + nHeight)
    zerocoinDB }

/-- A record of a spend in a block that was disconnected. -/
def staleDB : ZerocoinDB := { spends := (∅ : Std.ExtTreeMap Nat Uint256).insert 5 8000 }

theorem zerocoinChain_reindexedState (zerocoinDB : ZerocoinDB) :
    (ChainContext.regtest mintAt300).zerocoinChain (reindexedState zerocoinDB) = [400] := by
  have chain : (ChainContext.regtest mintAt300).zerocoinChain (reindexedState {}) = [400] := by
    decide +kernel
  exact chain

theorem mintsDecode_reindexedState (zerocoinDB : ZerocoinDB) :
    (ChainContext.regtest mintAt300).MintsDecode (reindexedState zerocoinDB) := by
  have block : ∀ tx ∈ (mintAt300 300).vtx, tx.vin ≠ [] ∧ ∀ out ∈ tx.vout,
      out.isZerocoinMint = true → (txOutToPublicCoin out).isSome = true := by
    decide +kernel
  intro hash onChain read disk
  rw [zerocoinChain_reindexedState, List.mem_singleton] at onChain
  subst onChain
  cases disk
  exact block

/-- The records of the chain: none of spends, and the mint. -/
theorem recordIn_reindexedState (zerocoinDB : ZerocoinDB) {records : CBlock → List (Nat × Uint256)}
    {key : Nat} {txid : Uint256} :
    (ChainContext.regtest mintAt300).RecordIn records
        ((ChainContext.regtest mintAt300).zerocoinChain (reindexedState zerocoinDB)) key txid ↔
      (key, txid) ∈ records (mintAt300 300) := by
  rw [zerocoinChain_reindexedState]
  constructor
  · rintro ⟨hash, onChain, block, disk, record⟩
    rw [List.mem_singleton] at onChain
    subst onChain
    cases disk
    exact record
  · intro record
    exact ⟨400, List.mem_singleton_self _, mintAt300 300, rfl, record⟩

/-- The mint of the chain. -/
def mintDB : ZerocoinDB := { mints := (∅ : Std.ExtTreeMap Nat Uint256).insert 7 9000 }

/-- A database that holds the mint keeps it. -/
theorem reindex_exact_reindexedState :
    ∃ db, (ChainContext.regtest mintAt300).reindexZerocoinDB (reindexedState mintDB) =
      (db, .returned "") ∧
    (ChainContext.regtest mintAt300).HoldsExactly (reindexedState mintDB) db := by
  have went : (ChainContext.regtest mintAt300).reindexZerocoinDB (reindexedState mintDB) =
      (((ChainContext.regtest mintAt300).reindexZerocoinDB (reindexedState mintDB)).1,
        .returned "") :=
    Prod.ext rfl (by decide +kernel)
  have single : (ChainContext.regtest mintAt300).blockMintRecords (mintAt300 300) =
      [(7, 9000)] := by
    decide +kernel
  refine ⟨_, went, ?_⟩
  refine (reindex_exact_iff _ _ _ (mintsDecode_reindexedState mintDB) went).1.mpr
    ⟨⟨?_, ?_⟩, ?_, ?_⟩
  · have none : (ChainContext.regtest mintAt300).blockSpendRecords (mintAt300 300) = [] := by
      decide +kernel
    intro key first second one
    rw [recordIn_reindexedState, none] at one
    cases one
  · intro key txid found
    simp [reindexedState, mintDB] at found
  · intro key first second one two
    rw [recordIn_reindexedState, single, List.mem_singleton] at one two
    exact (Prod.mk.inj (one.trans two.symm)).2
  · intro key txid found
    refine .inr ⟨9000, (recordIn_reindexedState mintDB).mpr ?_⟩
    rw [single, List.mem_singleton]
    by_contra other
    have different : 7 ≠ key := fun same => other (by rw [same])
    simp [reindexedState, mintDB, different] at found

/-- A record of a spend that is not on the chain stays. -/
theorem not_reindex_exact_staleDB :
    ¬ ∀ (ctx : ChainContext) (state : ChainState) (db : ZerocoinDB), ctx.MintsDecode state →
      ctx.reindexZerocoinDB state = (db, .returned "") → ctx.HoldsExactly state db := by
  intro always
  have exactly := always (ChainContext.regtest mintAt300) (reindexedState staleDB) _
    (mintsDecode_reindexedState staleDB) (Prod.ext rfl (by decide +kernel))
  have stale : ((ChainContext.regtest mintAt300).reindexZerocoinDB
      (reindexedState staleDB)).1.spends[5]? = some 8000 := by
    decide +kernel
  have record := (exactly.spends 5 8000).mp stale
  rw [recordIn_reindexedState] at record
  revert record
  decide +kernel

end GiantCore
