import GiantCore.Mempool.Index

/-! # Removing from the memory pool

What the functions that remove transactions leave in the pool. All of them take entries
out one by one. Removing with descendants goes through a queue of hashes, and whatever has
lost a parent is in the queue until its turn comes.
-/

namespace GiantCore.TxPool

variable {known : Uint256 → CTransaction} {params : CChainParams} {pool : TxPool}

/-! ## One entry -/

/-- Erasing an entry takes its transaction away, and no other. -/
theorem lookup_eraseEntry (hash : Uint256) (entry : CTxMemPoolEntry) (other : Uint256) :
    (pool.eraseEntry hash entry).lookup other =
      if other = hash then none else pool.lookup other := by
  unfold lookup eraseEntry
  dsimp only
  split
  · rename_i same
    rw [same, AList.lookup_erase]
    rfl
  · rename_i different
    rw [AList.lookup_erase_ne different]

/-- The inputs of a transaction are not spent any more. -/
theorem lookup_foldl_erase (vin : List CTxIn) (map : AList fun _ : COutPoint => CInPoint)
    (out : COutPoint) :
    (vin.foldl (fun map txin => map.erase txin.prevout) map).lookup out =
      if out ∈ vin.map CTxIn.prevout then none else map.lookup out := by
  induction vin generalizing map with
  | nil => rfl
  | cons txin rest ih =>
      rw [List.foldl_cons, ih, List.map_cons]
      by_cases later : out ∈ rest.map CTxIn.prevout
      · rw [if_pos later, if_pos (List.mem_cons_of_mem _ later)]
      · rw [if_neg later]
        by_cases same : out = txin.prevout
        · rw [same, AList.lookup_erase, if_pos List.mem_cons_self]
        · rw [AList.lookup_erase_ne same, if_neg (List.not_mem_cons_of_ne_of_not_mem same later)]

/-- The size of the pool shrinks by that of the entry. -/
theorem sizes_erase {hash : Uint256} {entry : CTxMemPoolEntry}
    (here : pool.mapTx.lookup hash = some entry) :
    pool.sizes.sum = entry.nTxSize + (pool.eraseEntry hash entry).sizes.sum := by
  have member : hash ∈ pool.mapTx := AList.lookup_isSome.mp (by rw [here]; rfl)
  obtain ⟨other, before, after, absent, whole, erased⟩ := List.exists_of_kerase member
  have same : other = entry := by
    have inside : (⟨hash, other⟩ : (_ : Uint256) × CTxMemPoolEntry) ∈ pool.mapTx.entries := by
      rw [whole]
      exact List.mem_append_right _ List.mem_cons_self
    have found := AList.mem_lookup_iff.mpr inside
    rw [here] at found
    cases found
    rfl
  subst same
  show (pool.mapTx.entries.map _).sum = _ + ((List.kerase hash pool.mapTx.entries).map _).sum
  rw [erased, whole]
  simp only [List.map_append, List.map_cons, List.sum_append, List.sum_cons]
  omega

/-- **An entry is taken out**, with its marks. They are its own, since zerocoin spends share
only outpoints that no other transaction has. -/
theorem Marked.eraseEntry (marked : Marked pool) {hash : Uint256} {entry : CTxMemPoolEntry}
    (here : pool.mapTx.lookup hash = some entry) : Marked (pool.eraseEntry hash entry) := by
  have held : pool.lookup hash = some entry.tx := lookup_eq_some.mpr ⟨entry, here, rfl⟩
  refine ⟨?_, ?_⟩
  · intro other tx found
    rw [lookup_eraseEntry] at found
    split at found
    · cases found
    · exact marked.held other tx found
  · intro out spender
    show (entry.tx.vin.foldl _ pool.mapNextTx).lookup out = some spender ↔ _
    rw [lookup_foldl_erase]
    constructor
    · intro found
      split at found
      · cases found
      · rename_i absent
        obtain ⟨tx, txin, there, spends, at', same⟩ := (marked.marks out spender).mp found
        refine ⟨tx, txin, ?_, spends, at', same⟩
        rw [lookup_eraseEntry, if_neg, there]
        intro equal
        rw [equal, held] at there
        cases there
        apply absent
        rw [← same]
        exact List.mem_map_of_mem (List.mem_of_getElem? at')
    · rintro ⟨tx, txin, there, spends, at', rfl⟩
      rw [lookup_eraseEntry] at there
      split at there
      · cases there
      · rename_i different
        rw [if_neg]
        · exact (marked.marks _ spender).mpr ⟨tx, txin, there, spends, at', rfl⟩
        · intro member
          obtain ⟨other, inside, same⟩ := List.mem_map.mp member
          cases ordinary : entry.tx.spendsInputs with
          | true =>
              exact different (marked.hash_unique there held spends ordinary
                (List.mem_of_getElem? at') inside same.symm)
          | false =>
              have zero := (marked.uniform held).hash_eq_zero ordinary inside
              rw [same] at zero
              exact (marked.uniform there).nonzero spends txin (List.mem_of_getElem? at') zero

/-- **An entry is taken out.** -/
theorem Indexed.eraseEntry (indexed : Indexed known params pool) {hash : Uint256}
    {entry : CTxMemPoolEntry} (here : pool.mapTx.lookup hash = some entry) :
    Indexed known params (pool.eraseEntry hash entry) := by
  refine ⟨?_, (indexed.marked.eraseEntry here).marks, ?_⟩
  · intro other tx found
    rw [lookup_eraseEntry] at found
    split at found
    · cases found
    · exact indexed.held other tx found
  · have sum := sizes_erase here
    show pool.totalTxSize - entry.nTxSize = _
    rw [indexed.total, sum, Nat.add_sub_cancel_left]

/-! ## The queue -/

/-- Nothing comes in. -/
def Within (pool after : TxPool) : Prop :=
  ∀ hash tx, after.lookup hash = some tx → pool.lookup hash = some tx

/-- A pool lies within itself. -/
theorem Within.refl (pool : TxPool) : Within pool pool := fun _ _ here => here

/-- A part of a part is a part. -/
theorem Within.trans {first second third : TxPool} (before : Within first second)
    (after : Within second third) : Within first third :=
  fun hash tx here => before hash tx (after hash tx here)

/-- What is not in the pool is not in a part of it. -/
theorem Within.none {after : TxPool} (within : Within pool after) {hash : Uint256}
    (absent : pool.lookup hash = none) : after.lookup hash = none := by
  by_contra present
  obtain ⟨tx, here⟩ := Option.ne_none_iff_exists'.mp present
  rw [within hash tx here] at absent
  cases absent

/-- Erasing an entry leaves a part of the pool. -/
theorem within_eraseEntry (hash : Uint256) (entry : CTxMemPoolEntry) :
    Within pool (pool.eraseEntry hash entry) := by
  intro other tx here
  rw [lookup_eraseEntry] at here
  split at here
  · cases here
  · exact here

section

variable {fRecursive : Bool} {queue : List Uint256}

/-- A hash that is not in the pool is passed over. -/
theorem removeQueue_of_none {hash : Uint256} (absent : pool.mapTx.lookup hash = none) :
    pool.removeQueue fRecursive (hash :: queue) = pool.removeQueue fRecursive queue := by
  rw [removeQueue]
  split
  · rfl
  · rename_i found
    rw [absent] at found
    cases found

/-- An entry of the queue is erased, and what it queues comes after the others. -/
theorem removeQueue_of_some {hash : Uint256} {entry : CTxMemPoolEntry}
    (found : pool.mapTx.lookup hash = some entry) :
    pool.removeQueue fRecursive (hash :: queue) = (pool.eraseEntry hash entry).removeQueue
      fRecursive (queue ++ pool.queued fRecursive hash entry.tx) := by
  rw [removeQueue]
  split
  · rename_i absent
    rw [absent] at found
    cases found
  · rename_i other there
    rw [found] at there
    cases there
    rfl

/-- What taking out one entry keeps is kept. -/
theorem keeps_removeQueue {keeps : TxPool → Prop}
    (erases : ∀ pool hash entry, pool.mapTx.lookup hash = some entry → keeps pool →
      keeps (pool.eraseEntry hash entry)) (before : keeps pool) :
    keeps (pool.removeQueue fRecursive queue) := by
  induction queue, pool using TxPool.removeQueue.induct fRecursive with
  | case1 pool =>
      rw [TxPool.removeQueue]
      exact before
  | case2 pool hash rest absent ih =>
      rw [removeQueue_of_none absent]
      exact ih before
  | case3 pool hash rest entry found ih =>
      rw [removeQueue_of_some found]
      exact ih (erases pool hash entry found before)

/-- The removal keeps the marks of the pool. -/
theorem Marked.removeQueue (marked : Marked pool) :
    Marked (pool.removeQueue fRecursive queue) :=
  keeps_removeQueue (fun _ _ _ found before => before.eraseEntry found) marked

/-- The removal keeps the index of spends. -/
theorem Indexed.removeQueue (indexed : Indexed known params pool) :
    Indexed known params (pool.removeQueue fRecursive queue) :=
  keeps_removeQueue (fun _ _ _ found before => before.eraseEntry found) indexed

/-- The removal leaves a part of the pool. -/
theorem within_removeQueue : Within pool (pool.removeQueue fRecursive queue) :=
  keeps_removeQueue (fun _ hash entry _ before => before.trans (within_eraseEntry hash entry))
    (.refl pool)

/-- What is in the queue is removed. -/
theorem lookup_removeQueue {hash : Uint256} (member : hash ∈ queue) :
    (pool.removeQueue fRecursive queue).lookup hash = none := by
  induction queue, pool using removeQueue.induct fRecursive with
  | case1 pool => cases member
  | case2 pool first rest absent ih =>
      rw [removeQueue_of_none absent]
      rcases List.mem_cons.mp member with rfl | later
      · apply within_removeQueue.none
        rw [lookup, absent]
        rfl
      · exact ih later
  | case3 pool first rest entry found ih =>
      rw [removeQueue_of_some found]
      rcases List.mem_cons.mp member with rfl | later
      · apply within_removeQueue.none
        rw [lookup_eraseEntry, if_pos rfl]
      · exact ih (List.mem_append_left _ later)

/-- Without descendants only the queue is removed. -/
theorem lookup_removeQueue_of_not_mem {hash : Uint256} (absent : hash ∉ queue) :
    (pool.removeQueue false queue).lookup hash = pool.lookup hash := by
  induction queue, pool using removeQueue.induct false with
  | case1 pool => rw [removeQueue]
  | case2 pool first rest none ih =>
      rw [removeQueue_of_none none]
      exact ih (List.not_mem_of_not_mem_cons absent)
  | case3 pool first rest entry found ih =>
      have remaining : hash ∉ rest ++ pool.queued false first entry.tx := by
        rw [queued, if_neg Bool.false_ne_true, List.append_nil]
        exact List.not_mem_of_not_mem_cons absent
      rw [removeQueue_of_some found, ih remaining, lookup_eraseEntry,
        if_neg (List.ne_of_not_mem_cons absent)]

/-- No transaction that is left has lost a parent. -/
def KeepsParents (pool after : TxPool) : Prop :=
  ∀ hash tx, after.lookup hash = some tx → tx.spendsInputs = true → ∀ txin ∈ tx.vin,
    (pool.lookup txin.prevout.hash).isSome → (after.lookup txin.prevout.hash).isSome

/-- A pool keeps the parents of its own transactions. -/
theorem KeepsParents.refl (pool : TxPool) : KeepsParents pool pool :=
  fun _ _ _ _ _ _ parent => parent

/-- One removal after another keeps the parents. -/
theorem KeepsParents.trans {first second third : TxPool} (within : Within second third)
    (before : KeepsParents first second) (after : KeepsParents second third) :
    KeepsParents first third := by
  intro hash tx here spends txin member parent
  apply after hash tx here spends txin member
  exact before hash tx (within hash tx here) spends txin member parent

/-- **Removing with descendants.** What has lost a parent since the start is in the
queue. -/
theorem keepsParents_removeQueue {start : TxPool} (indexed : Indexed known params pool)
    (pending : ∀ hash tx, pool.lookup hash = some tx → tx.spendsInputs = true →
      ∀ txin ∈ tx.vin, (start.lookup txin.prevout.hash).isSome →
        (pool.lookup txin.prevout.hash).isSome ∨ hash ∈ queue) :
    KeepsParents start (pool.removeQueue true queue) := by
  induction queue, pool using TxPool.removeQueue.induct true with
  | case1 pool =>
      rw [TxPool.removeQueue]
      intro hash tx here spends txin member parent
      rcases pending hash tx here spends txin member parent with kept | queued
      · exact kept
      · cases queued
  | case2 pool first rest absent ih =>
      rw [removeQueue_of_none absent]
      apply ih indexed
      intro hash tx here spends txin member parent
      refine (pending hash tx here spends txin member parent).imp_right fun queued => ?_
      rcases List.mem_cons.mp queued with rfl | later
      · rw [lookup, absent] at here
        cases here
      · exact later
  | case3 pool first rest entry found ih =>
      rw [removeQueue_of_some found]
      apply ih (indexed.eraseEntry found)
      intro hash tx here spends txin member parent
      rw [lookup_eraseEntry] at here
      split at here
      · cases here
      · rename_i different
        rw [List.mem_append]
        have held : pool.lookup first = some entry.tx := lookup_eq_some.mpr ⟨entry, found, rfl⟩
        by_cases child : txin.prevout.hash = first
        · obtain ⟨same, admitted⟩ := indexed.held _ _ held
          have queued := indexed.mem_spenders here spends member child
          rw [← same, admitted.named, same] at queued
          exact Or.inr (Or.inr queued)
        · rw [lookup_eraseEntry, if_neg child]
          rcases pending hash tx here spends txin member parent with kept | queued
          · exact Or.inl kept
          · rcases List.mem_cons.mp queued with equal | later
            · exact absurd equal different
            · exact Or.inr (Or.inl later)

end

/-! ## The functions -/

/-- What a function that removes transactions leaves. -/
structure Removes (known : Uint256 → CTransaction) (params : CChainParams) (pool after : TxPool) :
    Prop where
  indexed : Indexed known params after
  within : Within pool after
  parents : KeepsParents pool after

/-- Removing nothing. -/
theorem Removes.refl (indexed : Indexed known params pool) : Removes known params pool pool :=
  ⟨indexed, .refl pool, .refl pool⟩

/-- One removal after another. -/
theorem Removes.trans {first second third : TxPool} (before : Removes known params first second)
    (after : Removes known params second third) : Removes known params first third :=
  ⟨after.indexed, before.within.trans after.within, before.parents.trans after.within after.parents⟩

/-- **`remove` with descendants**: the transaction and its children are gone. -/
theorem removes_remove (indexed : Indexed known params pool) {origTx : CTransaction} :
    Removes known params pool (pool.remove origTx true) := by
  refine ⟨indexed.removeQueue, within_removeQueue, ?_⟩
  apply keepsParents_removeQueue indexed
  intro hash tx here spends txin member parent
  exact Or.inl parent

/-- A removed transaction is gone. -/
theorem lookup_remove_self {origTx : CTransaction} {fRecursive : Bool} :
    (pool.remove origTx fRecursive).lookup origTx.hash = none :=
  lookup_removeQueue List.mem_cons_self

/-- After a recursive removal no child is left. -/
theorem not_child_of_remove (indexed : Indexed known params pool) {origTx : CTransaction}
    (named : known origTx.hash = origTx) {hash : Uint256} {tx : CTransaction}
    (here : (pool.remove origTx true).lookup hash = some tx) (spends : tx.spendsInputs = true)
    {txin : CTxIn} (member : txin ∈ tx.vin) : txin.prevout.hash ≠ origTx.hash := by
  intro child
  have removes : Removes known params pool (pool.remove origTx true) := removes_remove indexed
  cases present : pool.mapTx.lookup origTx.hash with
  | some entry =>
      have parent : (pool.lookup txin.prevout.hash).isSome := by
        rw [child, lookup, present]
        rfl
      have kept := removes.parents hash tx here spends txin member parent
      rw [child, lookup_remove_self] at kept
      cases kept
  | none =>
      have queued := indexed.mem_spenders (removes.within hash tx here) spends member child
      rw [named] at queued
      have gone : (pool.remove origTx true).lookup hash = none := by
        apply lookup_removeQueue
        rw [present]
        exact List.mem_cons_of_mem _ queued
      rw [gone] at here
      cases here

/-- **`remove` of one transaction.** -/
theorem indexed_remove (indexed : Indexed known params pool) (tx : CTransaction) :
    Indexed known params (pool.remove tx false) := indexed.removeQueue

/-- Without recursion only the transaction itself is removed. -/
theorem lookup_remove (tx : CTransaction) (hash : Uint256) :
    (pool.remove tx false).lookup hash = if hash = tx.hash then none else pool.lookup hash := by
  split
  · rename_i same
    rw [same, lookup_remove_self]
  · rename_i different
    apply lookup_removeQueue_of_not_mem
    simpa using different

/-! ## Conflicts -/

section

variable {tx : CTransaction}

/-- Removing what conflicts with one input is a removal. -/
theorem removes_removeConflict (indexed : Indexed known params pool) (txin : CTxIn) :
    Removes known params pool (removeConflict tx pool txin) := by
  unfold removeConflict
  split
  · split
    · exact removes_remove indexed
    · exact .refl indexed
  · exact .refl indexed

/-- Removing all conflicts is a removal. -/
theorem removes_removeConflicts (indexed : Indexed known params pool) :
    Removes known params pool (pool.removeConflicts tx) := by
  unfold removeConflicts
  generalize tx.vin = vin
  induction vin generalizing pool with
  | nil => exact .refl indexed
  | cons txin rest ih =>
      have first : Removes known params pool (removeConflict tx pool txin) :=
        removes_removeConflict indexed txin
      exact first.trans (ih first.indexed)

end

/-- Zerocoin spends are nobody's children. -/
theorem Marked.not_mem_spenders (marked : Marked pool) {hash : Uint256} {tx : CTransaction}
    (here : pool.lookup hash = some tx) (spends : tx.spendsInputs = false) (parent : Uint256)
    (origTx : CTransaction) : hash ∉ pool.spenders parent origTx := by
  intro child
  obtain ⟨i, -, found⟩ := List.mem_filterMap.mp child
  obtain ⟨spender, mark, rfl⟩ := Option.map_eq_some_iff.mp found
  obtain ⟨other, -, there, spendsToo, -⟩ := (marked.marks _ _).mp mark
  rw [here] at there
  cases there
  rw [spends] at spendsToo
  cases spendsToo

/-- They are not removed as descendants. -/
theorem Marked.lookup_removeQueue (marked : Marked pool) {fRecursive : Bool} {queue : List Uint256}
    {hash : Uint256} {tx : CTransaction} (here : pool.lookup hash = some tx)
    (spends : tx.spendsInputs = false) (absent : hash ∉ queue) :
    (pool.removeQueue fRecursive queue).lookup hash = some tx := by
  induction queue, pool using TxPool.removeQueue.induct fRecursive with
  | case1 pool =>
      rw [TxPool.removeQueue]
      exact here
  | case2 pool first rest none ih =>
      rw [removeQueue_of_none none]
      exact ih marked here (List.not_mem_of_not_mem_cons absent)
  | case3 pool first rest entry found ih =>
      have unqueued : hash ∉ pool.queued fRecursive first entry.tx := by
        unfold TxPool.queued
        split
        · exact marked.not_mem_spenders here spends first entry.tx
        · exact List.not_mem_nil
      rw [removeQueue_of_some found]
      apply ih (marked.eraseEntry found)
      · rw [lookup_eraseEntry, if_neg (List.ne_of_not_mem_cons absent), here]
      · rw [List.mem_append, not_or]
        exact ⟨List.not_mem_of_not_mem_cons absent, unqueued⟩

/-- A transaction without inputs in the pool stays, unless it is the removed one. -/
theorem Marked.lookup_remove (marked : Marked pool) {origTx : CTransaction} {fRecursive : Bool}
    {hash : Uint256} {tx : CTransaction} (here : pool.lookup hash = some tx)
    (spends : tx.spendsInputs = false) (different : hash ≠ origTx.hash) :
    (pool.remove origTx fRecursive).lookup hash = some tx := by
  apply marked.lookup_removeQueue here spends
  rw [List.mem_cons, not_or]
  refine ⟨different, ?_⟩
  split
  · exact marked.not_mem_spenders here spends origTx.hash origTx
  · exact List.not_mem_nil

/-- What is left where only transactions that spend outputs are taken out. -/
structure KeepsSpends (pool after : TxPool) : Prop where
  marked : Marked after
  within : Within pool after
  spends : ∀ hash tx, pool.lookup hash = some tx → tx.spendsInputs = false →
    after.lookup hash = some tx

/-- A pool keeps its own transactions without inputs. -/
theorem KeepsSpends.refl (marked : Marked pool) : KeepsSpends pool pool :=
  ⟨marked, .refl pool, fun _ _ here _ => here⟩

/-- One such removal after another. -/
theorem KeepsSpends.trans {first second third : TxPool} (before : KeepsSpends first second)
    (after : KeepsSpends second third) : KeepsSpends first third where
  marked := after.marked
  within := before.within.trans after.within
  spends hash tx here spends := after.spends hash tx (before.spends hash tx here spends) spends

section

variable {tx : CTransaction}

/-- A round removes what spends the outpoint. -/
theorem keepsSpends_removeConflict (marked : Marked pool) (txin : CTxIn) :
    KeepsSpends pool (removeConflict tx pool txin) ∧
      ∀ hash other, (removeConflict tx pool txin).lookup hash = some other →
        other.spendsInputs = true → (∃ spent ∈ other.vin, spent.prevout = txin.prevout) →
        hash = tx.hash := by
  unfold removeConflict
  split
  · rename_i txConflict found
    obtain ⟨spender, mark, held⟩ := Option.bind_eq_some_iff.mp found
    obtain ⟨same, -⟩ := marked.held _ _ held
    split
    · have within : Within pool (pool.remove txConflict true) := within_removeQueue
      refine ⟨⟨marked.removeQueue, within, ?_⟩, ?_⟩
      · intro hash other here spends
        apply marked.lookup_remove here spends
        rintro rfl
        -- the conflict has a mark, so that it spends outputs
        obtain ⟨tx', -, there, spendsToo, -⟩ := (marked.marks _ _).mp mark
        rw [← same, here] at there
        cases there
        rw [spends] at spendsToo
        cases spendsToo
      · rintro hash other here spends ⟨spent, member, outpoint⟩
        obtain ⟨n, own⟩ := marked.mark_of_mem (within _ _ here) spends member
        rw [outpoint, mark] at own
        cases own
        have gone : (pool.remove txConflict true).lookup txConflict.hash = none :=
          lookup_remove_self
        rw [same] at gone
        rw [gone] at here
        cases here
    · rename_i equal
      refine ⟨.refl marked, ?_⟩
      rintro hash other here spends ⟨spent, member, outpoint⟩
      obtain ⟨n, own⟩ := marked.mark_of_mem here spends member
      rw [outpoint, mark] at own
      cases own
      rw [← not_not.mp equal, same]
  · rename_i none
    refine ⟨.refl marked, ?_⟩
    rintro hash other here spends ⟨spent, member, outpoint⟩
    obtain ⟨n, own⟩ := marked.mark_of_mem here spends member
    rw [outpoint] at own
    rw [own, Option.bind_some, here] at none
    cases none

/-- **`removeConflicts`** leaves no other transaction that spends an outpoint of this
one. -/
theorem keepsSpends_removeConflicts (marked : Marked pool) :
    KeepsSpends pool (pool.removeConflicts tx) ∧
      ∀ hash other, (pool.removeConflicts tx).lookup hash = some other →
        other.spendsInputs = true → ∀ spent ∈ other.vin,
        spent.prevout ∈ tx.vin.map CTxIn.prevout → hash = tx.hash := by
  unfold removeConflicts
  generalize tx.vin = vin
  induction vin generalizing pool with
  | nil => exact ⟨.refl marked, by simp⟩
  | cons txin rest ih =>
      obtain ⟨first, free⟩ := keepsSpends_removeConflict marked txin
      obtain ⟨later, freeLater⟩ := ih first.marked
      refine ⟨first.trans later, ?_⟩
      intro hash other here spends spent member conflict
      rcases List.mem_cons.mp conflict with same | conflict
      · exact free hash other (later.within _ _ here) spends ⟨spent, member, same⟩
      · exact freeLater hash other here spends spent member conflict

end

/-- **What a connected block takes out**: its transactions, and whatever spends an outpoint
that they have. The other zerocoin spends stay. -/
structure ClearedByBlock (vtx : List CTransaction) (pool after : TxPool) : Prop where
  marked : Marked after
  within : Within pool after
  gone : ∀ tx ∈ vtx, after.lookup tx.hash = none
  free : ∀ hash other, after.lookup hash = some other → other.spendsInputs = true →
    ∀ spent ∈ other.vin, ∀ tx ∈ vtx, spent.prevout ∉ tx.vin.map CTxIn.prevout
  spends : ∀ hash other, pool.lookup hash = some other → other.spendsInputs = false →
    hash ∉ vtx.map CTransaction.hash → after.lookup hash = some other

/-- A block takes its own transactions and their conflicts out of the pool. -/
theorem clearedByBlock_removeForBlock (marked : Marked pool) (vtx : List CTransaction) :
    ClearedByBlock vtx pool (pool.removeForBlock vtx) := by
  unfold removeForBlock
  induction vtx generalizing pool with
  | nil => exact ⟨marked, .refl pool, by simp, by simp, fun _ _ here _ _ => here⟩
  | cons tx rest ih =>
      obtain ⟨removes, free⟩ : KeepsSpends (pool.remove tx false)
          ((pool.remove tx false).removeConflicts tx) ∧ _ :=
        keepsSpends_removeConflicts marked.removeQueue
      have later := ih removes.marked
      have alone : Within pool (pool.remove tx false) := within_removeQueue
      have absent : ((pool.remove tx false).removeConflicts tx).lookup tx.hash = none :=
        removes.within.none lookup_remove_self
      rw [List.foldl_cons]
      refine ⟨later.marked, (alone.trans removes.within).trans later.within, ?_, ?_, ?_⟩
      · rw [List.forall_mem_cons]
        exact ⟨later.within.none absent, later.gone⟩
      · intro hash other here spends spent member
        rw [List.forall_mem_cons]
        refine ⟨?_, later.free hash other here spends spent member⟩
        intro conflict
        have same := free hash other (later.within _ _ here) spends spent member conflict
        rw [same, later.within.none absent] at here
        cases here
      · intro hash other here spends outside
        rw [List.map_cons, List.mem_cons, not_or] at outside
        apply later.spends hash other _ spends outside.2
        exact removes.spends hash other (marked.lookup_remove here spends outside.1) spends

/-- **What a connected block leaves**: nothing that has lost a parent other than to the
block. -/
structure LeftByBlock (known : Uint256 → CTransaction) (params : CChainParams)
    (vtx : List CTransaction) (pool after : TxPool) : Prop where
  indexed : Indexed known params after
  parents : ∀ hash other, after.lookup hash = some other → other.spendsInputs = true →
    ∀ txin ∈ other.vin, (pool.lookup txin.prevout.hash).isSome →
      (after.lookup txin.prevout.hash).isSome ∨ txin.prevout.hash ∈ vtx.map CTransaction.hash

/-- What a block leaves in the pool. -/
theorem leftByBlock_removeForBlock (indexed : Indexed known params pool)
    (vtx : List CTransaction) :
    LeftByBlock known params vtx pool (pool.removeForBlock vtx) := by
  induction vtx generalizing pool with
  | nil => exact ⟨indexed, fun _ _ _ _ _ _ parent => Or.inl parent⟩
  | cons tx rest ih =>
      have removes : Removes known params (pool.remove tx false)
          ((pool.remove tx false).removeConflicts tx) :=
        removes_removeConflicts (indexed_remove indexed tx)
      have later := ih removes.indexed
      have within := (clearedByBlock_removeForBlock removes.indexed.marked rest).within
      refine ⟨later.indexed, ?_⟩
      intro hash other here spends txin member parent
      rw [List.map_cons, List.mem_cons]
      by_cases same : txin.prevout.hash = tx.hash
      · exact Or.inr (Or.inl same)
      · have kept : ((pool.remove tx false).lookup txin.prevout.hash).isSome := by
          rw [lookup_remove, if_neg same]
          exact parent
        have between := removes.parents hash other (within _ _ here) spends txin member kept
        exact (later.parents hash other here spends txin member between).imp_right Or.inr

end GiantCore.TxPool
