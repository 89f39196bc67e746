import GiantCore.Mempool.Removal

/-! # What removing with descendants removes

`CTxMemPool::remove` with the list of the transactions that it takes out. The queue is sound,
since whatever is removed descends from something queued, and it is complete, since the children
of what is removed are gone in the end. So exactly a transaction and its descendants are removed,
whether the transaction is in the pool or not.
-/

namespace GiantCore

/-- An input of the second transaction spends an output that the first one has. -/
def CTransaction.SpendsOutputOf (parent child : CTransaction) : Prop :=
  ∃ txin ∈ child.vin, txin.isZerocoinSpend = false ∧ txin.prevout.hash = parent.hash ∧
    txin.prevout.n.toNat < parent.vout.length

namespace TxPool

/-- **A pool that fits its index**: each mark is one of an input that is no zerocoin spend, each
of these has its mark, and the total is that of the entries. -/
structure FitsIndex (pool : TxPool) : Prop where
  hashes : ∀ hash tx, pool.lookup hash = some tx → tx.hash = hash
  marks : ∀ out spender, pool.mapNextTx.lookup out = some spender ↔
    ∃ tx txin, pool.lookup spender.ptx = some tx ∧ tx.vin[spender.n]? = some txin ∧
      txin.isZerocoinSpend = false ∧ txin.prevout = out
  /-- No transaction has the hash zero. -/
  nonzero : ∀ hash tx, pool.lookup hash = some tx → ∀ txin ∈ tx.vin,
    txin.isZerocoinSpend = false → txin.prevout.hash ≠ 0
  total : pool.totalTxSize = pool.sizes.sum

/-- A transaction of the pool that spends an output of another one. -/
def Child (pool : TxPool) (parent child : CTransaction) : Prop :=
  pool.lookup child.hash = some child ∧ parent.SpendsOutputOf child

/-- A transaction as the pool has it, if it does. -/
def root (pool : TxPool) (origTx : CTransaction) : CTransaction :=
  (pool.lookup origTx.hash).getD origTx

/-- It is the transaction, or it spends its outputs, on its own or through others of the
pool. -/
def FromRoot (pool : TxPool) (origTx tx : CTransaction) : Prop :=
  tx.hash = origTx.hash ∨ Relation.TransGen pool.Child (pool.root origTx) tx

/-! ## The list -/

/-- The loop of `remove` with `removed`. -/
def removeQueueListed (fRecursive : Bool) (txToRemove : List Uint256) (pool : TxPool)
    (removed : List CTransaction) : TxPool × List CTransaction :=
  match txToRemove with
  | [] => (pool, removed)
  | hash :: rest =>
      match _found : pool.mapTx.lookup hash with
      | none => removeQueueListed fRecursive rest pool removed
      | some entry =>
          removeQueueListed fRecursive (rest ++ pool.queued fRecursive hash entry.tx)
            (pool.eraseEntry hash entry) (removed ++ [entry.tx])
termination_by (pool.mapTx.entries.length, txToRemove.length)
decreasing_by
  · simp [Prod.lex_def]
  · exact Prod.Lex.left _ _ (pool.length_eraseEntry _found)

/-- `remove`: the pool that is left, and `removed`. -/
def removeListed (pool : TxPool) (origTx : CTransaction) (removed : List CTransaction)
    (fRecursive : Bool) : TxPool × List CTransaction :=
  removeQueueListed fRecursive (origTx.hash ::
    if fRecursive && (pool.mapTx.lookup origTx.hash).isNone then pool.spenders origTx.hash origTx
    else []) pool removed

variable {pool : TxPool} {fRecursive : Bool} {queue : List Uint256} {removed : List CTransaction}

theorem removeQueueListed_of_none {hash : Uint256} (absent : pool.mapTx.lookup hash = none) :
    removeQueueListed fRecursive (hash :: queue) pool removed =
      removeQueueListed fRecursive queue pool removed := by
  rw [removeQueueListed]
  split
  · rfl
  · rename_i found
    rw [absent] at found
    cases found

theorem removeQueueListed_of_some {hash : Uint256} {entry : CTxMemPoolEntry}
    (found : pool.mapTx.lookup hash = some entry) :
    removeQueueListed fRecursive (hash :: queue) pool removed =
      removeQueueListed fRecursive (queue ++ pool.queued fRecursive hash entry.tx)
        (pool.eraseEntry hash entry) (removed ++ [entry.tx]) := by
  rw [removeQueueListed]
  split
  · rename_i absent
    rw [absent] at found
    cases found
  · rename_i other there
    rw [found] at there
    cases there
    rfl

/-- The list does not change what is left. -/
theorem removeQueueListed_fst :
    (removeQueueListed fRecursive queue pool removed).1 = pool.removeQueue fRecursive queue := by
  induction queue, pool using TxPool.removeQueue.induct fRecursive generalizing removed with
  | case1 pool => rw [removeQueueListed, TxPool.removeQueue]
  | case2 pool hash rest absent ih => rw [removeQueueListed_of_none absent, ih,
      removeQueue_of_none absent]
  | case3 pool hash rest entry found ih => rw [removeQueueListed_of_some found, ih,
      removeQueue_of_some found]

/-! ## The pool -/

theorem fitsIndex_clear (pool : TxPool) : FitsIndex pool.clear := by
  refine ⟨?_, ?_, ?_, rfl⟩
  · intro hash tx here
    cases here
  · intro out spender
    constructor
    · intro found
      cases found
    · rintro ⟨tx, txin, here, -⟩
      cases here
  · intro hash tx here
    cases here

namespace FitsIndex

/-- A mark is that of an input that is no zerocoin spend. -/
theorem mark_of_mem (fits : FitsIndex pool) {hash : Uint256} {tx : CTransaction}
    (here : pool.lookup hash = some tx) {txin : CTxIn} (member : txin ∈ tx.vin)
    (ordinary : txin.isZerocoinSpend = false) :
    ∃ n, pool.mapNextTx.lookup txin.prevout = some ⟨hash, n⟩ := by
  obtain ⟨n, found⟩ := List.mem_iff_getElem?.mp member
  exact ⟨n, (fits.marks _ _).mpr ⟨tx, txin, here, found, ordinary, rfl⟩⟩

/-- An entry is taken out with its own marks. -/
theorem eraseEntry (fits : FitsIndex pool) {hash : Uint256} {entry : CTxMemPoolEntry}
    (here : pool.mapTx.lookup hash = some entry) : FitsIndex (pool.eraseEntry hash entry) := by
  have held : pool.lookup hash = some entry.tx := lookup_eq_some.mpr ⟨entry, here, rfl⟩
  have within : Within pool (pool.eraseEntry hash entry) := within_eraseEntry hash entry
  refine ⟨fun other tx found => fits.hashes other tx (within other tx found), ?_,
    fun other tx found => fits.nonzero other tx (within other tx found), ?_⟩
  · intro out spender
    show (entry.tx.vin.foldl _ pool.mapNextTx).lookup out = some spender ↔ _
    rw [lookup_foldl_erase]
    constructor
    · intro found
      split at found
      · cases found
      · rename_i absent
        obtain ⟨tx, txin, there, at', ordinary, same⟩ := (fits.marks out spender).mp found
        refine ⟨tx, txin, ?_, at', ordinary, same⟩
        rw [lookup_eraseEntry, if_neg, there]
        intro equal
        rw [equal, held] at there
        cases there
        apply absent
        rw [← same]
        exact List.mem_map_of_mem (List.mem_of_getElem? at')
    · rintro ⟨tx, txin, there, at', ordinary, rfl⟩
      rw [lookup_eraseEntry] at there
      split at there
      · cases there
      · rename_i different
        have mark := (fits.marks _ spender).mpr ⟨tx, txin, there, at', ordinary, rfl⟩
        rw [if_neg, mark]
        intro member
        obtain ⟨other, inside, same⟩ := List.mem_map.mp member
        cases kind : other.isZerocoinSpend with
        | false =>
            obtain ⟨n, own⟩ := fits.mark_of_mem held inside kind
            rw [same, mark] at own
            cases own
            exact different rfl
        | true =>
            -- a zerocoin spend has no previous transaction
            have zero : other.prevout.hash = 0 := eq_of_beq (Bool.and_eq_true_iff.mp kind).1
            rw [same] at zero
            exact fits.nonzero _ tx there txin (List.mem_of_getElem? at') ordinary zero
  · have sum := sizes_erase here
    show pool.totalTxSize - entry.nTxSize = _
    rw [fits.total, sum, Nat.add_sub_cancel_left]

theorem removeQueue (fits : FitsIndex pool) : FitsIndex (pool.removeQueue fRecursive queue) :=
  keeps_removeQueue (fun _ _ _ found before => before.eraseEntry found) fits

theorem addUnchecked (fits : FitsIndex pool) {entry : CTxMemPoolEntry}
    (unmixed : ∀ txin ∈ entry.tx.vin, txin.isZerocoinSpend = entry.tx.hasZerocoinSpendInputs)
    (nonzero : ∀ txin ∈ entry.tx.vin, txin.isZerocoinSpend = false → txin.prevout.hash ≠ 0)
    (distinct : entry.tx.hasZerocoinSpendInputs = false → (entry.tx.vin.map CTxIn.prevout).Nodup)
    (absent : pool.lookup entry.tx.hash = none)
    (free : ∀ txin ∈ entry.tx.vin, txin.isZerocoinSpend = false →
      pool.mapNextTx.lookup txin.prevout = none) :
    FitsIndex (pool.addUnchecked entry) := by
  have others : ∀ hash tx, pool.lookup hash = some tx →
      (pool.addUnchecked entry).lookup hash = some tx := by
    intro hash tx here
    rw [lookup_addUnchecked, if_neg, here]
    rintro rfl
    rw [absent] at here
    cases here
  have cases' : ∀ hash tx, (pool.addUnchecked entry).lookup hash = some tx →
      (hash = entry.tx.hash ∧ tx = entry.tx) ∨ pool.lookup hash = some tx := by
    intro hash tx found
    rw [lookup_addUnchecked] at found
    split at found
    · rename_i same
      exact Or.inl ⟨same, (Option.some.inj found).symm⟩
    · exact Or.inr found
  have own : (pool.addUnchecked entry).lookup entry.tx.hash = some entry.tx := by
    rw [lookup_addUnchecked, if_pos rfl]
  refine ⟨?_, ?_, ?_, ?_⟩
  · intro hash tx found
    rcases cases' hash tx found with ⟨rfl, rfl⟩ | here
    · rfl
    · exact fits.hashes hash tx here
  · intro out spender
    cases kind : entry.tx.hasZerocoinSpendInputs with
    | true =>
        have same : (pool.addUnchecked entry).mapNextTx = pool.mapNextTx :=
          if_neg (by rw [kind]; exact Bool.false_ne_true)
        rw [same, fits.marks]
        constructor
        · rintro ⟨tx, txin, here, rest⟩
          exact ⟨tx, txin, others _ _ here, rest⟩
        · rintro ⟨tx, txin, found, at', ordinary, rest⟩
          rcases cases' _ _ found with ⟨-, rfl⟩ | here
          · rw [unmixed txin (List.mem_of_getElem? at'), kind] at ordinary
            cases ordinary
          · exact ⟨tx, txin, here, at', ordinary, rest⟩
    | false =>
        have new : (pool.addUnchecked entry).mapNextTx = markInputs entry.tx pool.mapNextTx :=
          if_pos (by rw [kind]; rfl)
        rw [new, markInputs, lookup_foldl_insert (distinct kind)]
        constructor
        · rintro (⟨i, txin, found, same, rfl⟩ | ⟨-, found⟩)
          · refine ⟨entry.tx, txin, own, by rw [Nat.zero_add]; exact found, ?_, same⟩
            rw [unmixed txin (List.mem_of_getElem? found), kind]
          · obtain ⟨tx, txin, here, rest⟩ := (fits.marks out spender).mp found
            exact ⟨tx, txin, others _ _ here, rest⟩
        · rintro ⟨tx, txin, found, at', ordinary, same⟩
          rcases cases' _ _ found with ⟨named, rfl⟩ | here
          · refine Or.inl ⟨spender.n, txin, at', same, ?_⟩
            rw [Nat.zero_add, ← named]
          · have mark := (fits.marks out spender).mpr ⟨tx, txin, here, at', ordinary, same⟩
            refine Or.inr ⟨fun member => ?_, mark⟩
            obtain ⟨other, inside, rfl⟩ := List.mem_map.mp member
            rw [free other inside ((unmixed other inside).trans kind)] at mark
            cases mark
  · intro hash tx found
    rcases cases' hash tx found with ⟨rfl, rfl⟩ | here
    · exact nonzero
    · exact fits.nonzero hash tx here
  · have new : entry.tx.hash ∉ pool.mapTx := by
      rw [← AList.lookup_eq_none]
      exact Option.map_eq_none_iff.mp absent
    show pool.totalTxSize + entry.nTxSize = _
    rw [fits.total]
    unfold sizes TxPool.addUnchecked
    dsimp only
    rw [AList.entries_insert_of_notMem new, List.map_cons, List.sum_cons, Nat.add_comm]

/-- **The children of a transaction are what is queued for it.** -/
theorem mem_spenders_iff (fits : FitsIndex pool) {parent : CTransaction} {hash : Uint256} :
    hash ∈ pool.spenders parent.hash parent ↔
      ∃ child, pool.Child parent child ∧ child.hash = hash := by
  unfold spenders
  rw [List.mem_filterMap]
  constructor
  · rintro ⟨i, inside, found⟩
    obtain ⟨spender, mark, rfl⟩ := Option.map_eq_some_iff.mp found
    obtain ⟨child, txin, there, at', ordinary, same⟩ := (fits.marks _ _).mp mark
    have named := fits.hashes _ _ there
    refine ⟨child, ⟨by rw [named, there], txin, List.mem_of_getElem? at', ordinary, ?_, ?_⟩, named⟩
    · rw [same]
    · rw [same, UInt32.toNat_ofNat']
      exact Nat.lt_of_le_of_lt (Nat.mod_le _ _) (List.mem_range.mp inside)
  · rintro ⟨child, ⟨there, txin, member, ordinary, parentHash, inside⟩, rfl⟩
    obtain ⟨n, mark⟩ := fits.mark_of_mem there member ordinary
    refine ⟨txin.prevout.n.toNat, List.mem_range.mpr inside, ?_⟩
    have outpoint : (⟨parent.hash, UInt32.ofNat txin.prevout.n.toNat⟩ : COutPoint) =
        txin.prevout := by
      rw [UInt32.ofNat_toNat, ← parentHash]
    rw [outpoint, mark]
    rfl

end FitsIndex

theorem Child.of_within {smaller : TxPool} (within : Within pool smaller)
    {parent child : CTransaction} (step : smaller.Child parent child) : pool.Child parent child :=
  ⟨within _ _ step.1, step.2⟩

/-! ## The queue -/

/-- **The queue is sound**: what is removed comes from something queued. -/
theorem exists_queued_of_removed (fits : FitsIndex pool) {hash : Uint256} {tx : CTransaction}
    (here : pool.lookup hash = some tx)
    (gone : (pool.removeQueue true queue).lookup hash = none) :
    ∃ first ∈ queue, ∃ ancestor, pool.lookup first = some ancestor ∧
      Relation.ReflTransGen pool.Child ancestor tx := by
  induction queue, pool using TxPool.removeQueue.induct true with
  | case1 pool =>
      rw [TxPool.removeQueue, here] at gone
      cases gone
  | case2 pool head rest absent ih =>
      rw [removeQueue_of_none absent] at gone
      obtain ⟨first, member, ancestor⟩ := ih fits here gone
      exact ⟨first, List.mem_cons_of_mem head member, ancestor⟩
  | case3 pool head rest entry found ih =>
      have held : pool.lookup head = some entry.tx := lookup_eq_some.mpr ⟨entry, found, rfl⟩
      have within : Within pool (pool.eraseEntry head entry) := within_eraseEntry head entry
      by_cases same : hash = head
      · rw [same, held] at here
        cases here
        exact ⟨head, List.mem_cons_self, entry.tx, held, Relation.ReflTransGen.refl⟩
      · rw [removeQueue_of_some found] at gone
        have kept : (pool.eraseEntry head entry).lookup hash = some tx := by
          rw [lookup_eraseEntry, if_neg same, here]
        obtain ⟨first, member, ancestor, there, path⟩ := ih (fits.eraseEntry found) kept gone
        have longer := path.lift id fun _ _ => Child.of_within within
        rcases List.mem_append.mp member with later | child
        · exact ⟨first, List.mem_cons_of_mem head later, ancestor, within _ _ there, longer⟩
        · -- it was queued for the head
          have named := fits.hashes _ _ held
          have queued : first ∈ pool.spenders entry.tx.hash entry.tx := by
            rw [named]
            exact child
          obtain ⟨other, step, equal⟩ := fits.mem_spenders_iff.mp queued
          have identical : other = ancestor := by
            have inside := step.1
            rw [equal, within _ _ there] at inside
            exact (Option.some.inj inside).symm
          subst identical
          exact ⟨head, List.mem_cons_self, entry.tx, held, longer.head step⟩

/-- **The queue is complete**: the children of what is removed are removed. -/
theorem child_removed (fits : FitsIndex pool) {parent child : CTransaction}
    (here : pool.lookup parent.hash = some parent)
    (gone : (pool.removeQueue true queue).lookup parent.hash = none)
    (step : pool.Child parent child) :
    (pool.removeQueue true queue).lookup child.hash = none := by
  induction queue, pool using TxPool.removeQueue.induct true with
  | case1 pool =>
      rw [TxPool.removeQueue, here] at gone
      cases gone
  | case2 pool head rest absent ih =>
      rw [removeQueue_of_none absent] at gone ⊢
      exact ih fits here gone step
  | case3 pool head rest entry found ih =>
      have held : pool.lookup head = some entry.tx := lookup_eq_some.mpr ⟨entry, found, rfl⟩
      rw [removeQueue_of_some found] at gone ⊢
      by_cases same : parent.hash = head
      · rw [← same, here] at held
        cases held
        apply lookup_removeQueue
        apply List.mem_append_right
        rw [queued, if_pos rfl, ← same]
        exact fits.mem_spenders_iff.mpr ⟨child, step, rfl⟩
      · by_cases itself : child.hash = head
        · apply within_removeQueue.none
          rw [lookup_eraseEntry, if_pos itself]
        · apply ih (fits.eraseEntry found) _ gone ⟨_, step.2⟩
          · rw [lookup_eraseEntry, if_neg same, here]
          · rw [lookup_eraseEntry, if_neg itself, step.1]

/-! ## `remove` -/

variable {origTx : CTransaction}

theorem lookup_root (fits : FitsIndex pool) {tx : CTransaction}
    (here : pool.lookup origTx.hash = some tx) :
    pool.root origTx = tx ∧ pool.lookup (pool.root origTx).hash = some (pool.root origTx) := by
  have same : pool.root origTx = tx := by
    rw [root, here]
    rfl
  rw [same, fits.hashes _ _ here]
  exact ⟨rfl, here⟩

/-- The children of the transaction itself are removed, whether it is in the pool or not. -/
theorem child_of_root_removed (fits : FitsIndex pool) {child : CTransaction}
    (step : pool.Child (pool.root origTx) child) :
    (pool.remove origTx true).lookup child.hash = none := by
  cases present : pool.lookup origTx.hash with
  | some tx =>
      obtain ⟨same, there⟩ := lookup_root fits present
      apply child_removed fits there _ step
      rw [same, fits.hashes _ _ present]
      exact lookup_remove_self
  | none =>
      have outside : pool.root origTx = origTx := by
        rw [root, present]
        rfl
      rw [outside] at step
      have missing : pool.mapTx.lookup origTx.hash = none := Option.map_eq_none_iff.mp present
      apply lookup_removeQueue
      rw [missing]
      exact List.mem_cons_of_mem _ (fits.mem_spenders_iff.mpr ⟨child, step, rfl⟩)

/-- **Exactly what comes from the transaction is removed.** -/
theorem lookup_remove_eq_none_iff (fits : FitsIndex pool) {hash : Uint256} {tx : CTransaction}
    (here : pool.lookup hash = some tx) :
    (pool.remove origTx true).lookup hash = none ↔ pool.FromRoot origTx tx := by
  have named := fits.hashes _ _ here
  constructor
  · intro gone
    obtain ⟨first, member, ancestor, there, path⟩ := exists_queued_of_removed fits here gone
    rcases List.mem_cons.mp member with rfl | child
    · obtain ⟨same, -⟩ := lookup_root fits there
      rcases Relation.reflTransGen_iff_eq_or_transGen.mp path with rfl | steps
      · exact Or.inl (fits.hashes _ _ there)
      · exact Or.inr (same ▸ steps)
    · split at child
      · rename_i missing
        have absent : pool.lookup origTx.hash = none :=
          Option.map_eq_none_iff.mpr (Option.isNone_iff_eq_none.mp (by simpa using missing))
        have outside : pool.root origTx = origTx := by
          rw [root, absent]
          rfl
        obtain ⟨other, step, equal⟩ := fits.mem_spenders_iff.mp child
        have identical : other = ancestor := by
          have inside := step.1
          rw [equal, there] at inside
          exact (Option.some.inj inside).symm
        subst identical
        rw [FromRoot, outside]
        exact Or.inr (Relation.TransGen.head' step path)
      · cases child
  · rintro (itself | steps)
    · rw [← named, itself]
      exact lookup_remove_self
    · rw [← named]
      clear here named
      induction steps with
      | single step => exact child_of_root_removed fits step
      | tail path step ih =>
          rename_i parent child
          have parentHere : pool.lookup parent.hash = some parent := by
            cases path with
            | single step => exact step.1
            | tail _ step => exact step.1
          exact child_removed fits parentHere ih step

/-! ## What is kept -/

/-- An entry that is left is the one that was there. -/
def KeepsEntries (pool after : TxPool) : Prop :=
  ∀ hash, after.mapTx.lookup hash = none ∨ after.mapTx.lookup hash = pool.mapTx.lookup hash

theorem keepsEntries_removeQueue : KeepsEntries pool (pool.removeQueue fRecursive queue) := by
  apply keeps_removeQueue
  · intro before other entry _ kept hash
    by_cases same : hash = other
    · left
      rw [same]
      exact AList.lookup_erase _ _
    · rw [show (before.eraseEntry other entry).mapTx.lookup hash = before.mapTx.lookup hash from
        AList.lookup_erase_ne same]
      exact kept hash
  · exact fun _ => Or.inr rfl

/-- **The list has what is removed**, once each, behind what was in it. -/
theorem removeQueueListed_snd (fits : FitsIndex pool) (removed : List CTransaction) :
    ∃ taken : List CTransaction,
      (removeQueueListed fRecursive queue pool removed).2 = removed ++ taken ∧ taken.Nodup ∧
      ∀ tx, tx ∈ taken ↔ pool.lookup tx.hash = some tx ∧
        (pool.removeQueue fRecursive queue).lookup tx.hash = none := by
  induction queue, pool using TxPool.removeQueue.induct fRecursive generalizing removed with
  | case1 pool =>
      rw [removeQueueListed, TxPool.removeQueue]
      refine ⟨[], (List.append_nil _).symm, List.nodup_nil, fun tx => ?_⟩
      constructor
      · intro member
        cases member
      · rintro ⟨here, gone⟩
        rw [here] at gone
        cases gone
  | case2 pool head rest absent ih =>
      rw [removeQueueListed_of_none absent, removeQueue_of_none absent]
      exact ih fits removed
  | case3 pool head rest entry found ih =>
      have held : pool.lookup head = some entry.tx := lookup_eq_some.mpr ⟨entry, found, rfl⟩
      have named := fits.hashes _ _ held
      rw [removeQueueListed_of_some found, removeQueue_of_some found]
      obtain ⟨taken, whole, distinct, members⟩ := ih (fits.eraseEntry found)
        (removed ++ [entry.tx])
      refine ⟨entry.tx :: taken, by rw [whole, List.append_assoc, List.singleton_append], ?_, ?_⟩
      · refine List.nodup_cons.mpr ⟨fun again => ?_, distinct⟩
        have still := ((members _).mp again).1
        rw [lookup_eraseEntry, if_pos named] at still
        cases still
      · intro tx
        rw [List.mem_cons, members, lookup_eraseEntry]
        by_cases same : tx.hash = head
        · have gone : ((pool.eraseEntry head entry).removeQueue fRecursive
              (rest ++ pool.queued fRecursive head entry.tx)).lookup tx.hash = none := by
            apply within_removeQueue.none
            rw [lookup_eraseEntry, if_pos same]
          rw [if_pos same, gone, same, held, Option.some.injEq]
          simp [eq_comm]
        · rw [if_neg same]
          constructor
          · rintro (rfl | kept)
            · exact absurd named same
            · exact kept
          · exact Or.inr

/-- **Only what comes from the transaction goes.** -/
structure RemovesExactly (pool : TxPool) (origTx : CTransaction) (removed : List CTransaction)
    (after : TxPool × List CTransaction) : Prop where
  entries : ∀ hash entry, pool.mapTx.lookup hash = some entry →
    (pool.FromRoot origTx entry.tx → after.1.mapTx.lookup hash = none) ∧
    (¬ pool.FromRoot origTx entry.tx → after.1.mapTx.lookup hash = some entry)
  nothingNew : ∀ hash, pool.mapTx.lookup hash = none → after.1.mapTx.lookup hash = none
  /-- What is taken out is listed, once each. -/
  listed : ∃ taken : List CTransaction, after.2 = removed ++ taken ∧ taken.Nodup ∧
    ∀ tx, tx ∈ taken ↔ pool.lookup tx.hash = some tx ∧ pool.FromRoot origTx tx
  /-- The marks of the others are as they were, and there are no more. -/
  marks : ∀ out spender, after.1.mapNextTx.lookup out = some spender ↔
    pool.mapNextTx.lookup out = some spender ∧ (after.1.lookup spender.ptx).isSome
  total : after.1.totalTxSize = after.1.sizes.sum

/-- **Removing with descendants is exact.** In a pool that fits its index, `remove` takes out the
transaction, if it is there, and all that spends its outputs on its own or through others. It
lists each of them once and leaves the other entries, their marks and their sizes. -/
theorem removesExactly_removeListed (pool : TxPool) (fits : FitsIndex pool)
    (origTx : CTransaction) (removed : List CTransaction) :
    pool.RemovesExactly origTx removed (pool.removeListed origTx removed true) := by
  have left : (pool.removeListed origTx removed true).1 = pool.remove origTx true :=
    removeQueueListed_fst
  have after : FitsIndex (pool.remove origTx true) := fits.removeQueue
  have within : Within pool (pool.remove origTx true) := within_removeQueue
  obtain ⟨taken, whole, distinct, members⟩ : ∃ taken : List CTransaction,
      (pool.removeListed origTx removed true).2 = removed ++ taken ∧ taken.Nodup ∧
      ∀ tx, tx ∈ taken ↔ pool.lookup tx.hash = some tx ∧
        (pool.remove origTx true).lookup tx.hash = none :=
    removeQueueListed_snd fits removed
  have entriesKept : KeepsEntries pool (pool.remove origTx true) := keepsEntries_removeQueue
  refine ⟨?_, ?_, ⟨taken, whole, distinct, ?_⟩, ?_, ?_⟩
  · intro hash entry found
    rw [left]
    have exact' : (pool.remove origTx true).lookup hash = none ↔ pool.FromRoot origTx entry.tx :=
      lookup_remove_eq_none_iff fits (lookup_eq_some.mpr ⟨entry, found, rfl⟩)
    rw [lookup, Option.map_eq_none_iff] at exact'
    refine ⟨exact'.mpr, fun other => ?_⟩
    rcases entriesKept hash with gone | kept
    · exact absurd (exact'.mp gone) other
    · exact kept.trans found
  · intro hash absent
    rw [left]
    exact (entriesKept hash).elim id fun kept => kept.trans absent
  · intro tx
    rw [members]
    exact and_congr_right fun here => lookup_remove_eq_none_iff fits here
  · intro out spender
    rw [left, after.marks, fits.marks]
    constructor
    · rintro ⟨tx, txin, here, rest⟩
      exact ⟨⟨tx, txin, within _ _ here, rest⟩, by rw [here]; rfl⟩
    · rintro ⟨⟨tx, txin, here, rest⟩, kept⟩
      obtain ⟨other, there⟩ := Option.isSome_iff_exists.mp kept
      have same := within _ _ there
      rw [here] at same
      cases same
      exact ⟨tx, txin, there, rest⟩
  · rw [left]
    exact after.total

/-! ## A transaction that spends two children of one -/

/-- A transaction that spends first outputs. -/
def spendOf (hash : Uint256) (spent : List COutPoint) : CTransaction where
  hash
  vin := spent.map fun prevout => { prevout }
  vout := [⟨10, [0x51], -10⟩, ⟨10, [0x51], -10⟩]

/-- Two children of a transaction outside the pool, and a child of both. -/
def diamond : TxPool :=
  ((({} : TxPool).addUnchecked ⟨spendOf 11 [⟨10, 0⟩], 200⟩).addUnchecked
    ⟨spendOf 12 [⟨10, 1⟩], 250⟩).addUnchecked ⟨spendOf 13 [⟨11, 0⟩, ⟨12, 1⟩], 300⟩

theorem fitsIndex_diamond : FitsIndex diamond := by
  have empty : FitsIndex ({} : TxPool) := fitsIndex_clear {}
  have first : FitsIndex (({} : TxPool).addUnchecked ⟨spendOf 11 [⟨10, 0⟩], 200⟩) :=
    empty.addUnchecked (by decide) (by decide) (by decide) rfl (by decide)
  have second : FitsIndex ((({} : TxPool).addUnchecked ⟨spendOf 11 [⟨10, 0⟩], 200⟩).addUnchecked
      ⟨spendOf 12 [⟨10, 1⟩], 250⟩) :=
    first.addUnchecked (by decide) (by decide) (by decide) rfl (by decide)
  exact second.addUnchecked (by decide) (by decide) (by decide) rfl (by decide)

theorem removesExactly_diamond :
    (diamond.lookup 10).isNone ∧ (diamond.lookup 13).isSome ∧
    diamond.RemovesExactly (spendOf 10 [⟨9, 0⟩]) []
      (diamond.removeListed (spendOf 10 [⟨9, 0⟩]) [] true) :=
  ⟨by decide +kernel, by decide +kernel, removesExactly_removeListed diamond fitsIndex_diamond _ _⟩

end TxPool

end GiantCore
