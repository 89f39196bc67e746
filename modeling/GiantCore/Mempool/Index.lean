import GiantCore.Mempool.Pool

/-! # The index of the memory pool

What is known of every transaction of the pool, and that `mapNextTx` marks exactly the
inputs of those that spend outputs. Adding a transaction and removing one keep this, and
with it everything that is built from them. Removing with descendants leaves no transaction
in the pool whose parent it takes out.
-/

namespace GiantCore

section

variable (known : Uint256 → CTransaction)

/-- A transaction spends an output of another one. Hashes stand for the transactions they
are the hashes of. -/
def SpendsFrom (parent child : Uint256) : Prop :=
  (known child).spendsInputs = true ∧ ∃ txin ∈ (known child).vin, txin.prevout.hash = parent

/-- The value that an input spends. -/
def spentValue (txin : CTxIn) : CAmount :=
  ((known txin.prevout.hash).vout[txin.prevout.n.toNat]?.getD CTxOut.null).nValue

end

/-- A total of inputs that stays in range. -/
def CChainParams.addInRange (params : CChainParams) (nValueIn nValue : CAmount) :
    Option CAmount :=
  if params.moneyRange nValue && params.moneyRange (nValueIn + nValue) then some (nValueIn + nValue)
  else none

/-- The fee of a transaction with this total of inputs. -/
def CTransaction.PaysFee (params : CChainParams) (tx : CTransaction) (nValueIn : CAmount) : Prop :=
  ∃ nValueOut, tx.getValueOut = some nValueOut ∧ nValueOut ≤ nValueIn ∧
    params.moneyRange (nValueIn - nValueOut) = true

/-- An output that is there, and can be spent. -/
def CTxOut.Spendable (out : CTxOut) : Prop :=
  out.isNull = false ∧ CScript.isUnspendable out.scriptPubKey = false ∧ out.isZerocoinMint = false

/-- **What is known of a transaction of the pool**, whatever becomes of the chain. -/
structure Admitted (known : Uint256 → CTransaction) (params : CChainParams) (tx : CTransaction) :
    Prop where
  named : known tx.hash = tx
  nonzero : tx.hash ≠ 0
  notCoinBase : tx.isCoinBase = false
  notCoinStake : tx.isCoinStake = false
  /-- Zerocoin spends and other inputs do not go together. -/
  unmixed : tx.hasZerocoinSpendInputs = true → ∀ txin ∈ tx.vin, txin.isZerocoinSpend = true
  outputs : ∀ out ∈ tx.vout, out.isNull = false
  distinct : tx.spendsInputs = true → (tx.vin.map CTxIn.prevout).Nodup
  inputs : tx.spendsInputs = true → ∀ txin ∈ tx.vin, txin.prevout.hash ≠ 0 ∧
    ∃ out, (known txin.prevout.hash).vout[txin.prevout.n.toNat]? = some out ∧ out.Spendable
  values : tx.spendsInputs = true → ∃ nValueIn,
    (tx.vin.map (spentValue known)).foldlM params.addInRange 0 = some nValueIn ∧
      tx.PaysFee params nValueIn
  grounded : Acc (SpendsFrom known) tx.hash

/-- **Inputs of one kind**: zerocoin spends, or outputs of other transactions. -/
structure CTransaction.Uniform (tx : CTransaction) : Prop where
  kinds : ∀ txin ∈ tx.vin, txin.isZerocoinSpend = !tx.spendsInputs
  nonzero : tx.spendsInputs = true → ∀ txin ∈ tx.vin, txin.prevout.hash ≠ 0

/-- A zerocoin spend has no previous transaction. -/
theorem CTransaction.Uniform.hash_eq_zero {tx : CTransaction} (uniform : tx.Uniform)
    (spends : tx.spendsInputs = false) {txin : CTxIn} (member : txin ∈ tx.vin) :
    txin.prevout.hash = 0 := by
  have zerocoin := uniform.kinds txin member
  rw [spends, CTxIn.isZerocoinSpend] at zerocoin
  exact eq_of_beq (Bool.and_eq_true_iff.mp zerocoin).1

/-- Without mixed inputs the kind is that of the transaction. -/
theorem CTransaction.kinds_of_unmixed {tx : CTransaction} (notCoinBase : tx.isCoinBase = false)
    (unmixed : tx.hasZerocoinSpendInputs = true → ∀ txin ∈ tx.vin, txin.isZerocoinSpend = true) :
    ∀ txin ∈ tx.vin, txin.isZerocoinSpend = !tx.spendsInputs := by
  intro txin member
  rw [CTransaction.spendsInputs, notCoinBase, Bool.not_false, Bool.true_and, Bool.not_not]
  cases has : tx.hasZerocoinSpendInputs with
  | true => exact unmixed has txin member
  | false =>
      rw [CTransaction.hasZerocoinSpendInputs, List.any_eq_false] at has
      simpa using has txin member

namespace Admitted

variable {known : Uint256 → CTransaction} {params : CChainParams} {tx : CTransaction}

theorem uniform (admitted : Admitted known params tx) : tx.Uniform where
  kinds := CTransaction.kinds_of_unmixed admitted.notCoinBase admitted.unmixed
  nonzero spends txin member := (admitted.inputs spends txin member).1

end Admitted

namespace TxPool

/-- The sizes of the entries. -/
def sizes (pool : TxPool) : List Nat := pool.mapTx.entries.map fun entry => entry.2.nTxSize

/-- **The marks are those of the inputs** that spend outputs. -/
structure Marked (pool : TxPool) : Prop where
  held : ∀ hash tx, pool.lookup hash = some tx → tx.hash = hash ∧ hash ≠ 0 ∧ tx.Uniform
  marks : ∀ out spender, pool.mapNextTx.lookup out = some spender ↔
    ∃ tx txin, pool.lookup spender.ptx = some tx ∧ tx.spendsInputs = true ∧
      tx.vin[spender.n]? = some txin ∧ txin.prevout = out

/-- **The index fits the transactions**, and all of them can be held. -/
structure Indexed (known : Uint256 → CTransaction) (params : CChainParams) (pool : TxPool) :
    Prop where
  held : ∀ hash tx, pool.lookup hash = some tx → tx.hash = hash ∧ Admitted known params tx
  marks : ∀ out spender, pool.mapNextTx.lookup out = some spender ↔
    ∃ tx txin, pool.lookup spender.ptx = some tx ∧ tx.spendsInputs = true ∧
      tx.vin[spender.n]? = some txin ∧ txin.prevout = out
  total : pool.totalTxSize = pool.sizes.sum

variable {known : Uint256 → CTransaction} {params : CChainParams} {pool : TxPool}

theorem lookup_eq_some {hash : Uint256} {tx : CTransaction} :
    pool.lookup hash = some tx ↔ ∃ entry, pool.mapTx.lookup hash = some entry ∧ entry.tx = tx :=
  Option.map_eq_some_iff

namespace Marked

variable (marked : Marked pool)

include marked

theorem uniform {hash : Uint256} {tx : CTransaction} (here : pool.lookup hash = some tx) :
    tx.Uniform := (marked.held hash tx here).2.2

theorem mark_of_mem {hash : Uint256} {tx : CTransaction} (here : pool.lookup hash = some tx)
    (spends : tx.spendsInputs = true) {txin : CTxIn} (member : txin ∈ tx.vin) :
    ∃ n, pool.mapNextTx.lookup txin.prevout = some ⟨hash, n⟩ := by
  obtain ⟨n, found⟩ := List.mem_iff_getElem?.mp member
  exact ⟨n, (marked.marks _ _).mpr ⟨tx, txin, here, spends, found, rfl⟩⟩

/-- **No output is spent twice** in the pool. -/
theorem hash_unique {first second : Uint256} {tx other : CTransaction}
    (here : pool.lookup first = some tx) (there : pool.lookup second = some other)
    (spends : tx.spendsInputs = true) (spendsToo : other.spendsInputs = true)
    {txin txin' : CTxIn} (member : txin ∈ tx.vin) (member' : txin' ∈ other.vin)
    (same : txin.prevout = txin'.prevout) : first = second := by
  obtain ⟨n, mark⟩ := marked.mark_of_mem here spends member
  obtain ⟨m, mark'⟩ := marked.mark_of_mem there spendsToo member'
  rw [same, mark'] at mark
  cases mark
  rfl

end Marked

namespace Indexed

variable (indexed : Indexed known params pool)

include indexed

theorem admitted {hash : Uint256} {tx : CTransaction} (here : pool.lookup hash = some tx) :
    Admitted known params tx := (indexed.held hash tx here).2

theorem marked : Marked pool where
  held hash tx here := by
    obtain ⟨same, admitted⟩ := indexed.held hash tx here
    exact ⟨same, same ▸ admitted.nonzero, admitted.uniform⟩
  marks := indexed.marks

/-- The children of a transaction are found by their marks. -/
theorem mem_spenders {hash parent : Uint256} {tx : CTransaction}
    (here : pool.lookup hash = some tx) (spends : tx.spendsInputs = true) {txin : CTxIn}
    (member : txin ∈ tx.vin) (same : txin.prevout.hash = parent) :
    hash ∈ pool.spenders parent (known parent) := by
  subst same
  obtain ⟨n, mark⟩ := indexed.marked.mark_of_mem here spends member
  obtain ⟨-, out, found, -⟩ := (indexed.admitted here).inputs spends txin member
  obtain ⟨inside, -⟩ := List.getElem?_eq_some_iff.mp found
  refine List.mem_filterMap.mpr ⟨txin.prevout.n.toNat, List.mem_range.mpr inside, ?_⟩
  have outpoint : (⟨txin.prevout.hash, UInt32.ofNat txin.prevout.n.toNat⟩ : COutPoint) =
      txin.prevout := by
    rw [UInt32.ofNat_toNat]
  rw [outpoint, mark]
  rfl

end Indexed

/-- Nothing is in an empty pool. -/
theorem indexed_clear (pool : TxPool) : Indexed known params pool.clear := by
  refine ⟨?_, ?_, rfl⟩
  · intro hash tx here
    cases here
  · intro out spender
    constructor
    · intro found
      cases found
    · rintro ⟨tx, txin, here, -⟩
      cases here

/-! ## Adding -/

theorem lookup_addUnchecked (entry : CTxMemPoolEntry) (hash : Uint256) :
    (pool.addUnchecked entry).lookup hash =
      if hash = entry.tx.hash then some entry.tx else pool.lookup hash := by
  unfold lookup addUnchecked
  dsimp only
  split
  · rename_i same
    rw [same, AList.lookup_insert]
    rfl
  · rename_i different
    rw [AList.lookup_insert_ne different]

theorem lookup_foldl_insert {hash : Uint256} {vin : List CTxIn} {first : Nat}
    {map : AList fun _ : COutPoint => CInPoint} (distinct : (vin.map CTxIn.prevout).Nodup)
    (out : COutPoint) (spender : CInPoint) :
    ((vin.zipIdx first).foldl (fun map input => map.insert input.1.prevout ⟨hash, input.2⟩)
      map).lookup out = some spender ↔
      (∃ i txin, vin[i]? = some txin ∧ txin.prevout = out ∧ spender = ⟨hash, first + i⟩) ∨
        (out ∉ vin.map CTxIn.prevout ∧ map.lookup out = some spender) := by
  induction vin generalizing first map with
  | nil => simp
  | cons txin rest ih =>
      rw [List.map_cons, List.nodup_cons] at distinct
      rw [List.zipIdx_cons, List.foldl_cons, ih distinct.2, List.map_cons, List.mem_cons, not_or]
      constructor
      · rintro (⟨i, other, found, same, rfl⟩ | ⟨absent, found⟩)
        · refine Or.inl ⟨i + 1, other, found, same, ?_⟩
          rw [Nat.add_assoc, Nat.add_comm 1 i]
        · by_cases same : out = txin.prevout
          · subst same
            rw [AList.lookup_insert] at found
            cases found
            exact Or.inl ⟨0, txin, rfl, rfl, rfl⟩
          · rw [AList.lookup_insert_ne same] at found
            exact Or.inr ⟨⟨same, absent⟩, found⟩
      · rintro (⟨i, other, found, rfl, rfl⟩ | ⟨⟨different, absent⟩, found⟩)
        · cases i with
          | zero =>
              cases found
              exact Or.inr ⟨distinct.1, AList.lookup_insert _⟩
          | succ j =>
              refine Or.inl ⟨j, other, found, rfl, ?_⟩
              rw [Nat.add_assoc, Nat.add_comm 1 j]
        · refine Or.inr ⟨absent, ?_⟩
          rw [AList.lookup_insert_ne different]
          exact found

/-- **A transaction is added**, with its marks. -/
theorem Marked.addUnchecked (marked : Marked pool) {entry : CTxMemPoolEntry}
    (notCoinBase : entry.tx.isCoinBase = false) (uniform : entry.tx.Uniform)
    (nonzero : entry.tx.hash ≠ 0)
    (distinct : entry.tx.spendsInputs = true → (entry.tx.vin.map CTxIn.prevout).Nodup)
    (absent : pool.lookup entry.tx.hash = none)
    (free : entry.tx.spendsInputs = true → ∀ txin ∈ entry.tx.vin,
      pool.mapNextTx.lookup txin.prevout = none) :
    Marked (pool.addUnchecked entry) := by
  have others : ∀ hash tx, pool.lookup hash = some tx → hash ≠ entry.tx.hash := by
    rintro hash tx here rfl
    rw [absent] at here
    cases here
  have ordinary : entry.tx.spendsInputs = !entry.tx.hasZerocoinSpendInputs := by
    rw [CTransaction.spendsInputs, notCoinBase]
    rfl
  refine ⟨?_, ?_⟩
  · intro hash tx here
    rw [lookup_addUnchecked] at here
    split at here
    · rename_i same
      cases here
      exact ⟨same.symm, same ▸ nonzero, uniform⟩
    · exact marked.held hash tx here
  · intro out spender
    have before : (∃ tx txin, pool.lookup spender.ptx = some tx ∧ tx.spendsInputs = true ∧
        tx.vin[spender.n]? = some txin ∧ txin.prevout = out) →
        ∃ tx txin, (pool.addUnchecked entry).lookup spender.ptx = some tx ∧
          tx.spendsInputs = true ∧ tx.vin[spender.n]? = some txin ∧ txin.prevout = out := by
      rintro ⟨tx, txin, here, rest⟩
      refine ⟨tx, txin, ?_, rest⟩
      rw [lookup_addUnchecked, if_neg (others _ _ here), here]
    cases spends : entry.tx.spendsInputs with
    | true =>
        have own : (pool.addUnchecked entry).mapNextTx = markInputs entry.tx pool.mapNextTx :=
          if_pos (ordinary ▸ spends)
        rw [own, markInputs, lookup_foldl_insert (distinct spends)]
        constructor
        · rintro (⟨i, txin, found, same, rfl⟩ | ⟨-, found⟩)
          · refine ⟨entry.tx, txin, ?_, spends, ?_, same⟩
            · rw [lookup_addUnchecked, if_pos rfl]
            · rw [Nat.zero_add]
              exact found
          · exact before ((marked.marks out spender).mp found)
        · rintro ⟨tx, txin, here, ordinary, found, same⟩
          rw [lookup_addUnchecked] at here
          split at here
          · rename_i new
            cases here
            refine Or.inl ⟨spender.n, txin, found, same, ?_⟩
            rw [Nat.zero_add, ← new]
          · have mark := (marked.marks out spender).mpr ⟨tx, txin, here, ordinary, found, same⟩
            refine Or.inr ⟨?_, mark⟩
            intro member
            obtain ⟨other, inside, rfl⟩ := List.mem_map.mp member
            rw [free spends other inside] at mark
            cases mark
    | false =>
        have own : (pool.addUnchecked entry).mapNextTx = pool.mapNextTx :=
          if_neg (by rw [← ordinary, spends]; exact Bool.false_ne_true)
        rw [own, marked.marks]
        refine ⟨before, ?_⟩
        rintro ⟨tx, txin, here, ordinary, rest⟩
        rw [lookup_addUnchecked] at here
        split at here
        · cases here
          rw [spends] at ordinary
          cases ordinary
        · exact ⟨tx, txin, here, ordinary, rest⟩

/-- **A transaction is added.** -/
theorem Indexed.addUnchecked (indexed : Indexed known params pool) {entry : CTxMemPoolEntry}
    (admitted : Admitted known params entry.tx) (absent : pool.lookup entry.tx.hash = none)
    (free : entry.tx.spendsInputs = true → ∀ txin ∈ entry.tx.vin,
      pool.mapNextTx.lookup txin.prevout = none) :
    Indexed known params (pool.addUnchecked entry) := by
  refine ⟨?_, ?_, ?_⟩
  · intro hash tx here
    rw [lookup_addUnchecked] at here
    split at here
    · rename_i same
      cases here
      exact ⟨same.symm, admitted⟩
    · exact indexed.held hash tx here
  · exact (indexed.marked.addUnchecked admitted.notCoinBase admitted.uniform admitted.nonzero
      admitted.distinct absent free).marks
  · have new : entry.tx.hash ∉ pool.mapTx := by
      rw [← AList.lookup_eq_none]
      exact Option.map_eq_none_iff.mp absent
    show pool.totalTxSize + entry.nTxSize = _
    rw [indexed.total]
    unfold sizes TxPool.addUnchecked
    dsimp only
    rw [AList.entries_insert_of_notMem new, List.map_cons, List.sum_cons, Nat.add_comm]

end TxPool

end GiantCore
