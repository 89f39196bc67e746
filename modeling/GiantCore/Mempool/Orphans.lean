import GiantCore.Foundation.Run
import GiantCore.Primitives.Transaction
import Mathlib.Data.Finset.Basic
import Std.Data.ExtTreeMap

/-! # Orphan transactions

The transactions of `main.cpp` that wait for their parents, and the index from a parent to the
orphans that spend from it. An orphan may name a parent in several inputs, and several orphans may
name the same parent. The index stays exact through every run (`orphans_exact`).
-/

namespace GiantCore

open GiantCore.Foundation

structure COrphanTx where
  tx : CTransaction
  fromPeer : Int
  deriving DecidableEq, Repr

/-- `mapOrphanTransactions` and `mapOrphanTransactionsByPrev`. -/
structure OrphanPool where
  orphans : Std.ExtTreeMap Uint256 COrphanTx := ∅
  byPrev : Std.ExtTreeMap Uint256 (Finset Uint256) := ∅

namespace OrphanPool

/-- The index entry of a parent, empty without one. -/
def entryOf (byPrev : Std.ExtTreeMap Uint256 (Finset Uint256)) (prev : Uint256) : Finset Uint256 :=
  (byPrev[prev]?).getD ∅

/-- One round of the loop of `AddOrphanTx`. -/
def link (hash : Uint256) (byPrev : Std.ExtTreeMap Uint256 (Finset Uint256)) (txin : CTxIn) :
    Std.ExtTreeMap Uint256 (Finset Uint256) :=
  byPrev.insert txin.prevout.hash (insert hash (entryOf byPrev txin.prevout.hash))

/-- One round of the loop of `EraseOrphanTx`. -/
def unlink (hash : Uint256) (byPrev : Std.ExtTreeMap Uint256 (Finset Uint256)) (txin : CTxIn) :
    Std.ExtTreeMap Uint256 (Finset Uint256) :=
  match byPrev[txin.prevout.hash]? with
  | none => byPrev
  | some itPrev =>
      if itPrev.erase hash = ∅ then byPrev.erase txin.prevout.hash
      else byPrev.insert txin.prevout.hash (itPrev.erase hash)

/-- `AddOrphanTx`, where the size is that on the network. -/
def addOrphanTx (size : CTransaction → Nat) (pool : OrphanPool) (tx : CTransaction) (peer : Int) :
    OrphanPool × Bool :=
  if pool.orphans.contains tx.hash then (pool, false)
  else if size tx > 5000 then (pool, false)
  else ({ orphans := pool.orphans.insert tx.hash ⟨tx, peer⟩
          byPrev := tx.vin.foldl (link tx.hash) pool.byPrev }, true)

/-- `EraseOrphanTx`. -/
def eraseOrphanTx (pool : OrphanPool) (hash : Uint256) : OrphanPool :=
  match pool.orphans[hash]? with
  | none => pool
  | some it =>
      { orphans := pool.orphans.erase hash
        byPrev := it.tx.vin.foldl (unlink hash) pool.byPrev }

/-- `EraseOrphansFor`. The iterator goes on before the entry is erased. -/
def eraseOrphansFor (pool : OrphanPool) (peer : Int) : OrphanPool :=
  pool.orphans.toList.foldl (fun pool maybeErase =>
    if maybeErase.2.fromPeer = peer then pool.eraseOrphanTx maybeErase.2.tx.hash else pool) pool

/-- `lower_bound` of a random hash, or `begin`. -/
def victim (pool : OrphanPool) (randomhash : Uint256) : Option (Uint256 × COrphanTx) :=
  (pool.orphans.toList.find? fun it => decide (randomhash ≤ it.1)).or pool.orphans.toList.head?

/-- The victim is an orphan of the pool. -/
theorem mem_toList_victim {pool : OrphanPool} {randomhash : Uint256} {it : Uint256 × COrphanTx}
    (found : pool.victim randomhash = some it) : pool.orphans[it.1]? = some it.2 := by
  have member : it ∈ pool.orphans.toList := by
    rcases Option.or_eq_some_iff.mp found with first | ⟨-, first⟩
    · exact List.mem_of_find?_eq_some first
    · exact List.mem_of_head? first
  exact Std.ExtTreeMap.mem_toList_iff_getElem?_eq_some.mp member

/-- One orphan goes. -/
theorem size_eraseOrphanTx {pool : OrphanPool} {hash : Uint256} {orphan : COrphanTx}
    (found : pool.orphans[hash]? = some orphan) :
    (pool.eraseOrphanTx hash).orphans.size + 1 = pool.orphans.size := by
  have known : pool.orphans.contains hash = true := by
    rw [Std.ExtTreeMap.contains_eq_isSome_getElem?, found]
    rfl
  have nonzero : pool.orphans.size ≠ 0 := by
    intro zero
    rw [Std.ExtTreeMap.eq_empty_iff_size_eq_zero.mpr zero] at known
    simp at known
  unfold eraseOrphanTx
  rw [found]
  dsimp only
  rw [Std.ExtTreeMap.size_erase, if_pos known]
  omega

/-- The loop of `LimitOrphanTxSize`, with the random hashes that are drawn. -/
def limitFrom (nMaxOrphans : Nat) (random : Nat → Uint256) (nEvicted : Nat) (pool : OrphanPool) :
    OrphanPool × Nat :=
  if pool.orphans.size > nMaxOrphans then
    match _found : pool.victim (random nEvicted) with
    | none => (pool, nEvicted)
    | some it => limitFrom nMaxOrphans random (nEvicted + 1) (pool.eraseOrphanTx it.1)
  else (pool, nEvicted)
termination_by pool.orphans.size
decreasing_by
  have smaller := size_eraseOrphanTx (mem_toList_victim _found)
  omega

/-- `LimitOrphanTxSize`. -/
def limitOrphanTxSize (pool : OrphanPool) (nMaxOrphans : Nat) (random : Nat → Uint256) :
    OrphanPool × Nat :=
  limitFrom nMaxOrphans random 0 pool

end OrphanPool

/-- What is done with the orphans. -/
inductive OrphanCall where
  | addOrphanTx (tx : CTransaction) (peer : Int)
  | eraseOrphanTx (hash : Uint256)
  | eraseOrphansFor (peer : Int)
  | limitOrphanTxSize (nMaxOrphans : Nat) (random : Nat → Uint256)

namespace OrphanPool

def step (size : CTransaction → Nat) (pool : OrphanPool) : OrphanCall → OrphanPool
  | .addOrphanTx tx peer => (pool.addOrphanTx size tx peer).1
  | .eraseOrphanTx hash => pool.eraseOrphanTx hash
  | .eraseOrphansFor peer => pool.eraseOrphansFor peer
  | .limitOrphanTxSize nMaxOrphans random => (pool.limitOrphanTxSize nMaxOrphans random).1

/-! ## The index -/

/-- A stored orphan has an input from a parent. -/
def Spends (orphans : Std.ExtTreeMap Uint256 COrphanTx) (prev hash : Uint256) : Prop :=
  ∃ orphan : COrphanTx, orphans[hash]? = some orphan ∧
    ∃ txin ∈ orphan.tx.vin, txin.prevout.hash = prev

/-- No set of the index is empty. -/
def NoneEmpty (byPrev : Std.ExtTreeMap Uint256 (Finset Uint256)) : Prop :=
  ∀ (prev : Uint256) (hashes : Finset Uint256), byPrev[prev]? = some hashes → hashes ≠ ∅

/-- **The index is exact**: the entry of a parent has the stored orphans that spend from it, and a
parent without one has no entry. Orphans are stored under their hashes. -/
structure Exact (pool : OrphanPool) : Prop where
  keyed : ∀ (hash : Uint256) (orphan : COrphanTx), pool.orphans[hash]? = some orphan →
    orphan.tx.hash = hash
  mem_iff : ∀ prev hash, hash ∈ entryOf pool.byPrev prev ↔ Spends pool.orphans prev hash
  noneEmpty : NoneEmpty pool.byPrev

/-- Different hashes do not compare as equal. -/
theorem compare_ne {first second : Uint256} (different : first ≠ second) :
    compare first second ≠ .eq :=
  fun same => different (Std.LawfulEqCmp.compare_eq_iff_eq.mp same)

variable {byPrev : Std.ExtTreeMap Uint256 (Finset Uint256)} {hash other prev : Uint256}

/-- A link adds the hash to one entry. -/
theorem mem_link {txin : CTxIn} :
    other ∈ entryOf (link hash byPrev txin) prev ↔
      other ∈ entryOf byPrev prev ∨ (other = hash ∧ txin.prevout.hash = prev) := by
  unfold link
  by_cases same : txin.prevout.hash = prev
  · rw [same, entryOf, Std.ExtTreeMap.getElem?_insert_self, Option.getD_some, Finset.mem_insert]
    tauto
  · rw [entryOf, Std.ExtTreeMap.getElem?_insert, if_neg (compare_ne same), ← entryOf]
    tauto

/-- A link leaves no entry empty. -/
theorem NoneEmpty.link (filled : NoneEmpty byPrev) (txin : CTxIn) :
    NoneEmpty (link hash byPrev txin) := by
  unfold NoneEmpty
  intro prev hashes found
  unfold OrphanPool.link at found
  rw [Std.ExtTreeMap.getElem?_insert] at found
  split at found
  · cases found
    exact Finset.insert_ne_empty _ _
  · exact filled prev hashes found

/-- Unlinking takes the hash out of one entry. -/
theorem mem_unlink {txin : CTxIn} :
    other ∈ entryOf (unlink hash byPrev txin) prev ↔
      other ∈ entryOf byPrev prev ∧ ¬ (other = hash ∧ txin.prevout.hash = prev) := by
  unfold unlink
  by_cases same : txin.prevout.hash = prev
  · rw [same]
    cases found : byPrev[prev]? with
    | none =>
        simp only [entryOf, found]
        simp
    | some itPrev =>
        dsimp only
        split
        · rename_i gone
          have kept : other ∈ itPrev.erase hash ↔ False := by
            rw [gone]
            simp
          simp only [entryOf, Std.ExtTreeMap.getElem?_erase_self, found, Option.getD_some]
          rw [Finset.mem_erase] at kept
          simp only [Option.getD_none, Finset.notMem_empty]
          tauto
        · simp only [entryOf, Std.ExtTreeMap.getElem?_insert_self, found, Option.getD_some,
            Finset.mem_erase]
          tauto
  · have kept : entryOf (unlink hash byPrev txin) prev = entryOf byPrev prev := by
      unfold unlink
      split
      · rfl
      · split
        · rw [entryOf, Std.ExtTreeMap.getElem?_erase, if_neg (compare_ne same), ← entryOf]
        · rw [entryOf, Std.ExtTreeMap.getElem?_insert, if_neg (compare_ne same), ← entryOf]
    unfold unlink at kept
    rw [kept]
    tauto

/-- Unlinking erases an entry that gets empty. -/
theorem NoneEmpty.unlink (filled : NoneEmpty byPrev) (txin : CTxIn) :
    NoneEmpty (unlink hash byPrev txin) := by
  unfold NoneEmpty
  intro prev hashes found
  unfold OrphanPool.unlink at found
  split at found
  · exact filled prev hashes found
  · split at found
    · rw [Std.ExtTreeMap.getElem?_erase] at found
      split at found
      · cases found
      · exact filled prev hashes found
    · rename_i remains
      rw [Std.ExtTreeMap.getElem?_insert] at found
      split at found
      · cases found
        exact remains
      · exact filled prev hashes found

/-- After the loop of `AddOrphanTx` the new orphan is at all its parents. -/
theorem mem_foldl_link {vin : List CTxIn} :
    other ∈ entryOf (vin.foldl (link hash) byPrev) prev ↔
      other ∈ entryOf byPrev prev ∨ (other = hash ∧ ∃ txin ∈ vin, txin.prevout.hash = prev) := by
  induction vin generalizing byPrev with
  | nil => simp
  | cons txin rest ih =>
      rw [List.foldl_cons, ih, mem_link, List.exists_mem_cons_iff]
      tauto

/-- After the loop of `EraseOrphanTx` the orphan is at none of its parents. -/
theorem mem_foldl_unlink {vin : List CTxIn} :
    other ∈ entryOf (vin.foldl (unlink hash) byPrev) prev ↔
      other ∈ entryOf byPrev prev ∧ ¬ (other = hash ∧ ∃ txin ∈ vin, txin.prevout.hash = prev) := by
  induction vin generalizing byPrev with
  | nil => simp
  | cons txin rest ih =>
      rw [List.foldl_cons, ih, mem_unlink, List.exists_mem_cons_iff, and_assoc, ← not_or,
        ← and_or_left]

/-- Links leave no entry empty. -/
theorem NoneEmpty.foldl_link {vin : List CTxIn} (filled : NoneEmpty byPrev) :
    NoneEmpty (vin.foldl (OrphanPool.link hash) byPrev) := by
  induction vin generalizing byPrev with
  | nil => exact filled
  | cons txin rest ih => exact ih (filled.link txin)

/-- Unlinking several inputs leaves no entry empty. -/
theorem NoneEmpty.foldl_unlink {vin : List CTxIn} (filled : NoneEmpty byPrev) :
    NoneEmpty (vin.foldl (OrphanPool.unlink hash) byPrev) := by
  induction vin generalizing byPrev with
  | nil => exact filled
  | cons txin rest ih => exact ih (filled.unlink txin)

/-! ## The calls -/

variable {pool : OrphanPool}

/-- An empty pool has an exact index. -/
theorem Exact.empty : Exact {} := by
  refine ⟨?_, ?_, ?_⟩
  · intro hash orphan found
    simp at found
  · intro prev hash
    simp [entryOf, Spends]
  · unfold NoneEmpty
    intro prev hashes found
    simp at found

/-- The entry of a transaction has the orphans that spend it. -/
theorem Exact.getElem?_byPrev (exact : pool.Exact) (prev : Uint256) (hashes : Finset Uint256) :
    pool.byPrev[prev]? = some hashes ↔
      hashes ≠ ∅ ∧ ∀ hash, hash ∈ hashes ↔ Spends pool.orphans prev hash := by
  constructor
  · intro found
    refine ⟨exact.noneEmpty prev hashes found, ?_⟩
    intro hash
    rw [← exact.mem_iff, entryOf, found, Option.getD_some]
  · rintro ⟨filled, listed⟩
    cases found : pool.byPrev[prev]? with
    | none =>
        obtain ⟨hash, member⟩ := Finset.nonempty_iff_ne_empty.mpr filled
        have entered := (exact.mem_iff prev hash).mpr ((listed hash).mp member)
        rw [entryOf, found] at entered
        simp at entered
    | some entered =>
        congr 1
        ext hash
        rw [listed, ← exact.mem_iff, entryOf, found, Option.getD_some]

/-- A new orphan keeps the index exact. -/
theorem Exact.addOrphanTx {size : CTransaction → Nat} (exact : pool.Exact) (tx : CTransaction)
    (peer : Int) : (pool.addOrphanTx size tx peer).1.Exact := by
  unfold OrphanPool.addOrphanTx
  split
  · exact exact
  split
  · exact exact
  rename_i new _
  have absent : pool.orphans[tx.hash]? = none := by
    rw [Std.ExtTreeMap.contains_eq_isSome_getElem?] at new
    exact Option.not_isSome_iff_eq_none.mp new
  refine ⟨?_, ?_, exact.noneEmpty.foldl_link⟩
  · intro hash orphan found
    dsimp only at found
    rw [Std.ExtTreeMap.getElem?_insert] at found
    split at found
    · rename_i same
      cases found
      exact Std.LawfulEqCmp.compare_eq_iff_eq.mp same
    · exact exact.keyed hash orphan found
  · intro prev hash
    dsimp only
    rw [mem_foldl_link, exact.mem_iff]
    unfold Spends
    by_cases same : hash = tx.hash
    · subst same
      rw [absent, Std.ExtTreeMap.getElem?_insert_self]
      simp
    · rw [Std.ExtTreeMap.getElem?_insert, if_neg (compare_ne (Ne.symm same))]
      simp [same]

/-- Erasing an orphan keeps the index exact. -/
theorem Exact.eraseOrphanTx (exact : pool.Exact) (hash : Uint256) :
    (pool.eraseOrphanTx hash).Exact := by
  unfold OrphanPool.eraseOrphanTx
  split
  · exact exact
  rename_i it stored
  refine ⟨?_, ?_, exact.noneEmpty.foldl_unlink⟩
  · intro other orphan found
    dsimp only at found
    rw [Std.ExtTreeMap.getElem?_erase] at found
    split at found
    · cases found
    · exact exact.keyed other orphan found
  · intro prev other
    dsimp only
    rw [mem_foldl_unlink, exact.mem_iff]
    unfold Spends
    by_cases same : other = hash
    · subst same
      rw [stored, Std.ExtTreeMap.getElem?_erase_self]
      simp
    · rw [Std.ExtTreeMap.getElem?_erase, if_neg (compare_ne (Ne.symm same))]
      simp [same]

/-- Erasing the orphans of a peer keeps the index exact. -/
theorem Exact.eraseOrphansFor (exact : pool.Exact) (peer : Int) :
    (pool.eraseOrphansFor peer).Exact := by
  unfold OrphanPool.eraseOrphansFor
  generalize pool.orphans.toList = entries
  induction entries generalizing pool with
  | nil => exact exact
  | cons maybeErase rest ih =>
      rw [List.foldl_cons]
      split
      · exact ih (exact.eraseOrphanTx _)
      · exact ih exact

/-- Evicting orphans keeps the index exact. -/
theorem Exact.limitFrom {nMaxOrphans : Nat} {random : Nat → Uint256} (nEvicted : Nat)
    (exact : pool.Exact) : (limitFrom nMaxOrphans random nEvicted pool).1.Exact := by
  fun_induction OrphanPool.limitFrom nMaxOrphans random nEvicted pool with
  | case1 => exact exact
  | case2 nEvicted pool excess it found ih => exact ih (exact.eraseOrphanTx it.1)
  | case3 => exact exact

/-- Every call keeps the index exact. -/
theorem Exact.step {size : CTransaction → Nat} (exact : pool.Exact) (call : OrphanCall) :
    (pool.step size call).Exact := by
  cases call with
  | addOrphanTx tx peer => exact exact.addOrphanTx tx peer
  | eraseOrphanTx hash => exact exact.eraseOrphanTx hash
  | eraseOrphansFor peer => exact exact.eraseOrphansFor peer
  | limitOrphanTxSize nMaxOrphans random => exact exact.limitFrom 0

/-! ## The limit -/

/-- Some orphan is found for every random hash. -/
theorem victim_ne_none {randomhash : Uint256} (stored : 0 < pool.orphans.size) :
    pool.victim randomhash ≠ none := by
  unfold victim
  intro missing
  rw [Option.or_eq_none_iff, List.head?_eq_none_iff] at missing
  have counted : pool.orphans.toList.length = pool.orphans.size := Std.ExtTreeMap.length_toList
  rw [missing.2] at counted
  simp only [List.length_nil] at counted
  omega

/-- The loop ends at the limit, and counts what it erases. -/
theorem limitFrom_size (nMaxOrphans : Nat) (random : Nat → Uint256) (nEvicted : Nat)
    (pool : OrphanPool) :
    (limitFrom nMaxOrphans random nEvicted pool).1.orphans.size =
        min pool.orphans.size nMaxOrphans ∧
      (limitFrom nMaxOrphans random nEvicted pool).2 =
        nEvicted + (pool.orphans.size - nMaxOrphans) := by
  fun_induction OrphanPool.limitFrom nMaxOrphans random nEvicted pool with
  | case1 nEvicted pool excess missing => exact absurd missing (victim_ne_none (by omega))
  | case2 nEvicted pool excess it found ih =>
      have smaller := size_eraseOrphanTx (mem_toList_victim found)
      rw [ih.1, ih.2]
      omega
  | case3 nEvicted pool fits =>
      dsimp only
      omega

/-- The orphans that remain were stored before. -/
theorem getElem?_limitFrom {nMaxOrphans : Nat} {random : Nat → Uint256} {nEvicted : Nat}
    {hash : Uint256} {orphan : COrphanTx}
    (remains : (limitFrom nMaxOrphans random nEvicted pool).1.orphans[hash]? = some orphan) :
    pool.orphans[hash]? = some orphan := by
  fun_induction OrphanPool.limitFrom nMaxOrphans random nEvicted pool with
  | case1 => exact remains
  | case2 nEvicted pool excess it found ih =>
      have kept := ih remains
      unfold eraseOrphanTx at kept
      rw [mem_toList_victim found] at kept
      dsimp only at kept
      rw [Std.ExtTreeMap.getElem?_erase] at kept
      split at kept
      · cases kept
      · exact kept
  | case3 => exact remains

/-- **The orphan index is exact in every run**: the set of a parent has the stored orphans with an
input from it, there is none without such an orphan, and the limit removes the orphans above it and
no others. -/
theorem orphans_exact (size : CTransaction → Nat) (calls : List OrphanCall) :
    ∀ pool ∈ Run.states (step size) {} calls,
      (∀ prev hashes, pool.byPrev[prev]? = some hashes ↔
        hashes ≠ ∅ ∧ ∀ hash, hash ∈ hashes ↔ Spends pool.orphans prev hash) ∧
      ∀ nMaxOrphans random,
        (pool.limitOrphanTxSize nMaxOrphans random).1.orphans.size ≤ nMaxOrphans ∧
        (pool.limitOrphanTxSize nMaxOrphans random).1.orphans.size =
          min pool.orphans.size nMaxOrphans ∧
        (pool.limitOrphanTxSize nMaxOrphans random).2 = pool.orphans.size - nMaxOrphans ∧
        ∀ (hash : Uint256) (orphan : COrphanTx),
          (pool.limitOrphanTxSize nMaxOrphans random).1.orphans[hash]? = some orphan →
            pool.orphans[hash]? = some orphan := by
  intro pool reached
  have exact := @Run.invariant _ _ _ Exact (fun pool call kept => kept.step call) _ Exact.empty
    calls pool reached
  refine ⟨exact.getElem?_byPrev, ?_⟩
  intro nMaxOrphans random
  obtain ⟨kept, evicted⟩ := limitFrom_size nMaxOrphans random 0 pool
  refine ⟨?_, kept, ?_, fun hash orphan => getElem?_limitFrom⟩
  · rw [limitOrphanTxSize, kept]
    exact min_le_right _ _
  · rw [limitOrphanTxSize, evicted, Nat.zero_add]

/-- Two orphans of one parent, from two peers, one of which leaves. -/
def twoChildren : List OrphanCall :=
  [.addOrphanTx { hash := 1, vin := [{ prevout := ⟨9, 0⟩ }], vout := [] } 0,
    .addOrphanTx { hash := 2, vin := [{ prevout := ⟨9, 1⟩ }], vout := [] } 1,
    .eraseOrphansFor 0]

/-- Two children of one transaction, one of which is erased. -/
theorem orphans_exact_twoChildren :
    ∃ pool ∈ Run.states (step fun _ => 100) {} twoChildren, pool.orphans.size = 1 ∧
      (∀ prev hashes, pool.byPrev[prev]? = some hashes ↔
        hashes ≠ ∅ ∧ ∀ hash, hash ∈ hashes ↔ Spends pool.orphans prev hash) ∧
      (pool.limitOrphanTxSize 0 fun _ => 1).1.orphans.size ≤ 0 := by
  have last := @Run.foldl_mem_states _ _ (step fun _ => 100) {} twoChildren
  have exact := orphans_exact (fun _ => 100) twoChildren _ last
  exact ⟨_, last, by decide +kernel, exact.1, (exact.2 0 _).1⟩

end OrphanPool

end GiantCore
