import GiantCore.Mempool.Backing

/-! # `check` of the memory pool

`check` puts the transactions of the pool into a copy of the coins one after the other.
Those that wait for others of the pool are put off. At all times every transaction that
is left finds the outputs it spends, save for those of transactions that are left
themselves; so the first of them in the order of spending can be put in.
-/

namespace GiantCore

open CoinsMap
open CValidationState (require_eq_ok)
open Foundation.Checks (bind_eq_ok)

/-! ## The rules on the inputs -/

section

variable {ctx : ChainContext} {vstate : CValidationState} {nSpendHeight : Int} {view : CoinsMap}

/-- The value of an input in a view. -/
def CoinsMap.valueOf (view : CoinsMap) (txin : CTxIn) : CAmount :=
  ((view txin.prevout.hash).vout[txin.prevout.n.toNat]?.getD CTxOut.null).nValue

theorem checkInput_eq_ok {nValueIn total : CAmount} {txin : CTxIn} :
    checkInput ctx vstate nSpendHeight view nValueIn txin = .ok total ↔
      (view txin.prevout.hash).Mature ctx.supply nSpendHeight ∧
        ctx.params.addInRange nValueIn (view.valueOf txin) = some total := by
  have mature : (!((view txin.prevout.hash).fCoinBase || (view txin.prevout.hash).fCoinStake) ||
      !decide (nSpendHeight - (view txin.prevout.hash).nHeight <
        ctx.supply.maturity (view txin.prevout.hash).nHeight)) = true ↔
      (view txin.prevout.hash).Mature ctx.supply nSpendHeight := by
    unfold CCoins.Mature
    rw [Bool.or_eq_true, Bool.not_eq_true', Bool.not_eq_true', decide_eq_false_iff_not, not_lt,
      ← Bool.not_eq_true, ← imp_iff_not_or]
  unfold checkInput
  simp only [bind_eq_ok, acceptRule_eq_ok, require_eq_ok, Bool.not_and, mature]
  unfold CChainParams.addInRange CoinsMap.valueOf
  constructor
  · rintro ⟨_, deep, _, inRange, same⟩
    cases same
    exact ⟨deep, if_pos inRange⟩
  · rintro ⟨deep, inRange⟩
    split at inRange
    · rename_i passed
      cases inRange
      exact ⟨(), deep, (), passed, rfl⟩
    · cases inRange

theorem foldlM_checkInput_eq_ok {vin : List CTxIn} {start total : CAmount} :
    vin.foldlM (checkInput ctx vstate nSpendHeight view) start = .ok total ↔
      (∀ txin ∈ vin, (view txin.prevout.hash).Mature ctx.supply nSpendHeight) ∧
        (vin.map view.valueOf).foldlM ctx.params.addInRange start = some total := by
  induction vin generalizing start with
  | nil => simp [pure, Except.pure]
  | cons txin rest ih =>
      rw [List.foldlM_cons, bind_eq_ok, List.map_cons, List.foldlM_cons, List.forall_mem_cons]
      simp only [checkInput_eq_ok, ih, Option.bind_eq_bind, Option.bind_eq_some_iff]
      constructor
      · rintro ⟨middle, ⟨deep, first⟩, others, later⟩
        exact ⟨⟨deep, others⟩, middle, first, later⟩
      · rintro ⟨⟨deep, others⟩, middle, first, later⟩
        exact ⟨middle, ⟨deep, first⟩, others, later⟩

theorem checkFee_eq_ok {tx : CTransaction} {nValueIn : CAmount} {done : Unit} :
    checkFee ctx vstate tx nValueIn = .ok done ↔ tx.PaysFee ctx.params nValueIn := by
  unfold checkFee CTransaction.PaysFee
  simp only [bind_eq_ok, acceptRule_eq_ok, require_eq_ok, orUndefined_eq_ok, Bool.not_eq_true',
    decide_eq_false_iff_not, not_lt]
  constructor
  · rintro ⟨nValueOut, found, _, enough, _, -, inRange⟩
    exact ⟨nValueOut, found, enough, inRange⟩
  · rintro ⟨nValueOut, found, enough, inRange⟩
    exact ⟨nValueOut, found, (), enough, (), sub_nonneg.mpr enough, inRange⟩

end

/-- **`CheckInputs` without the scripts**, for a transaction that spends outputs. -/
theorem TxPool.checkInputValues_iff {ctx : ChainContext} {chain : ChainState} {view : CoinsView}
    {tx : CTransaction} (spends : tx.spendsInputs = true) (notStake : tx.isCoinStake = false) :
    checkInputValues ctx chain view tx = true ↔
      view.coins.haveInputs tx = true ∧ ∃ pindexPrev,
        chain.mapBlockIndex view.hashBlock = some pindexPrev ∧
        (∀ txin ∈ tx.vin,
          (view.coins txin.prevout.hash).Mature ctx.supply (pindexPrev.nHeight + 1)) ∧
        ∃ nValueIn, (tx.vin.map view.coins.valueOf).foldlM ctx.params.addInRange 0 = some nValueIn ∧
          tx.PaysFee ctx.params nValueIn := by
  have passes : ∀ result : Except AcceptFailure Unit, result.isOk = true ↔ result = .ok () := by
    intro result
    cases result with
    | error failure => simp [Except.isOk, Except.toBool]
    | ok value => simp [Except.isOk, Except.toBool]
  unfold checkInputValues
  rw [spends, Bool.not_true, Bool.false_or, passes]
  unfold checkInputs
  simp only [bind_eq_ok, acceptRule_eq_ok, require_eq_ok, orUndefined_eq_ok, notStake,
    Bool.false_and, Bool.false_eq_true, if_false, foldlM_checkInput_eq_ok, checkFee_eq_ok, and_true]
  constructor
  · rintro ⟨_, found, pindexPrev, index, nValueIn, ⟨deep, total⟩, _, fee⟩
    exact ⟨found, pindexPrev, index, deep, nValueIn, total, fee⟩
  · rintro ⟨found, pindexPrev, index, deep, nValueIn, total, fee⟩
    exact ⟨(), found, pindexPrev, index, nValueIn, ⟨deep, total⟩, (), fee⟩

namespace TxPool

/-! ## The order of the entries -/

variable {known : Uint256 → CTransaction} {params : CChainParams} {pool : TxPool}

theorem mem_inOrder {entry : CTxMemPoolEntry} :
    entry ∈ pool.inOrder ↔ ∃ hash, pool.mapTx.lookup hash = some entry := by
  unfold inOrder
  simp only [List.mem_map, List.mem_insertionSort]
  constructor
  · rintro ⟨⟨hash, _⟩, member, rfl⟩
    exact ⟨hash, AList.mem_lookup_iff.mpr member⟩
  · rintro ⟨hash, found⟩
    exact ⟨⟨hash, entry⟩, AList.mem_lookup_iff.mp found, rfl⟩

section

variable (named : ∀ hash tx, pool.lookup hash = some tx → tx.hash = hash)

include named

theorem lookup_of_mem_inOrder {entry : CTxMemPoolEntry} (member : entry ∈ pool.inOrder) :
    pool.lookup entry.tx.hash = some entry.tx := by
  obtain ⟨hash, found⟩ := mem_inOrder.mp member
  have held := lookup_eq_some.mpr ⟨entry, found, rfl⟩
  rw [named hash entry.tx held]
  exact held

theorem nodup_inOrder : (pool.inOrder.map fun entry => entry.tx.hash).Nodup := by
  have keys : pool.mapTx.entries.map (fun entry => entry.2.tx.hash) = pool.mapTx.keys := by
    apply List.map_congr_left
    intro ⟨hash, entry⟩ member
    exact named hash entry.tx
      (lookup_eq_some.mpr ⟨entry, AList.mem_lookup_iff.mpr member, rfl⟩)
  unfold inOrder
  rw [List.map_map]
  apply ((List.perm_insertionSort _ pool.mapTx.entries).map _).nodup_iff.mpr
  exact keys ▸ pool.mapTx.keys_nodup

end

theorem Indexed.named (indexed : Indexed known params pool) :
    ∀ hash tx, pool.lookup hash = some tx → tx.hash = hash :=
  fun hash tx here => (indexed.held hash tx here).1

theorem sum_inOrder : (pool.inOrder.map CTxMemPoolEntry.nTxSize).sum = pool.sizes.sum := by
  unfold inOrder sizes
  rw [List.map_map]
  exact ((List.perm_insertionSort _ pool.mapTx.entries).map _).sum_nat

/-! ## Between the rounds -/

/-- **What holds between the rounds**, where `left` are the transactions that are not in
the copy of the coins yet. -/
structure Settling (known : Uint256 → CTransaction) (pool : TxPool) (coins duplicate : CoinsMap)
    (left : List CTxMemPoolEntry) : Prop where
  origins : duplicate.FromKnown known
  others : ∀ txid, pool.lookup txid = none → (coins txid).Remains (duplicate txid)
  held : ∀ entry ∈ left, pool.lookup entry.tx.hash = some entry.tx
  distinct : (left.map fun entry => entry.tx.hash).Nodup
  found : ∀ entry ∈ left, entry.tx.spendsInputs = true → ∀ txin ∈ entry.tx.vin,
    txin.prevout.hash ∉ left.map (fun entry => entry.tx.hash) →
      (duplicate txin.prevout.hash).Unspent txin.prevout.n.toNat

theorem Settling.perm {coins duplicate : CoinsMap} {left other : List CTxMemPoolEntry}
    (settling : Settling known pool coins duplicate left) (same : left.Perm other) :
    Settling known pool coins duplicate other where
  origins := settling.origins
  others := settling.others
  held entry member := settling.held entry (same.mem_iff.mpr member)
  distinct := (same.map _).nodup_iff.mp settling.distinct
  found entry member spends txin inside absent :=
    settling.found entry (same.mem_iff.mpr member) spends txin inside
      fun parent => absent ((same.map _).mem_iff.mp parent)

theorem haveInputs_eq_true {view : CoinsMap} {tx : CTransaction} :
    view.haveInputs tx = true ↔ (tx.spendsInputs = true → ∀ txin ∈ tx.vin,
      (view txin.prevout.hash).isAvailable txin.prevout.n.toNat = true) := by
  unfold CoinsMap.haveInputs CTransaction.spendsInputs
  split
  · rename_i spends
    simp [spends]
  · rename_i spends
    simp [spends]

section

variable {ctx : ChainContext} {chain : ChainState} {tip : ChainIndex}
  (indexed : Indexed known ctx.params pool)
  (best : chain.mapBlockIndex chain.coinsTip.hashBlock = some tip)
  (backed : pool.Backed (chain.coinsTip.coins.Offers ctx.supply (tip.nHeight + 1)))

include indexed

/-- What a transaction finds can be spent. -/
theorem Settling.haveInputs {coins duplicate : CoinsMap} {left : List CTxMemPoolEntry}
    (settling : Settling known pool coins duplicate left) {entry : CTxMemPoolEntry}
    (member : entry ∈ left)
    (alone : entry.tx.spendsInputs = true → ∀ txin ∈ entry.tx.vin,
      txin.prevout.hash ∉ left.map (fun entry => entry.tx.hash)) :
    duplicate.haveInputs entry.tx = true := by
  rw [haveInputs_eq_true]
  intro spends txin inside
  have admitted := indexed.admitted (settling.held entry member)
  obtain ⟨-, out, found, spendable⟩ := admitted.inputs spends txin inside
  exact settling.origins.isAvailable_of_unspent found spendable
    (settling.found entry member spends txin inside (alone spends txin inside))

/-- Some transaction that is left waits for none of the others. -/
theorem Settling.exists_ready {coins duplicate : CoinsMap} {left : List CTxMemPoolEntry}
    (settling : Settling known pool coins duplicate left) (nonempty : left ≠ []) :
    ∃ entry ∈ left, duplicate.haveInputs entry.tx = true := by
  have grounded : ∀ hash ∈ left.map (fun entry => entry.tx.hash),
      Acc (fun parent child => SpendsFrom known parent child) hash := by
    intro hash member
    obtain ⟨entry, inside, rfl⟩ := List.mem_map.mp member
    exact (indexed.admitted (settling.held entry inside)).grounded
  have hashes : left.map (fun entry => entry.tx.hash) ≠ [] := by simpa using nonempty
  obtain ⟨hash, member, first⟩ := Foundation.RetryQueue.exists_first hashes grounded
  obtain ⟨entry, inside, rfl⟩ := List.mem_map.mp member
  refine ⟨entry, inside, settling.haveInputs indexed inside ?_⟩
  intro spends txin spent parent
  have named := (indexed.admitted (settling.held entry inside)).named
  apply first _ parent
  refine ⟨?_, txin, ?_, rfl⟩
  · rw [named]
    exact spends
  · rw [named]
    exact spent

include best backed

/-- The inputs of a transaction are in order where they are there. -/
theorem Settling.checkInputValues {duplicate : CoinsMap} {left : List CTxMemPoolEntry}
    (settling : Settling known pool chain.coinsTip.coins duplicate left)
    {entry : CTxMemPoolEntry} (member : entry ∈ left)
    (ready : duplicate.haveInputs entry.tx = true) :
    checkInputValues ctx chain ⟨duplicate, chain.coinsTip.hashBlock⟩ entry.tx = true := by
  have held := settling.held entry member
  have admitted := indexed.admitted held
  cases spends : entry.tx.spendsInputs with
  | false => rw [TxPool.checkInputValues, spends]; rfl
  | true =>
      have unspent : ∀ txin ∈ entry.tx.vin,
          (duplicate txin.prevout.hash).Unspent txin.prevout.n.toNat := by
        intro txin inside
        have available := haveInputs_eq_true.mp ready spends txin inside
        exact (settling.origins.spendable_of_isAvailable available).2
      refine (checkInputValues_iff spends admitted.notCoinStake).mpr ⟨ready, tip, best, ?_, ?_⟩
      · intro txin inside
        cases parent : pool.lookup txin.prevout.hash with
        | some tx =>
            obtain ⟨same, admittedParent⟩ := indexed.held _ _ parent
            have alive := (unspent txin inside).isPruned
            rw [← same] at alive ⊢
            exact settling.origins.mature admittedParent alive ctx.supply _
        | none =>
            rcases backed _ _ held spends txin inside with pooled | offered
            · rw [parent] at pooled
              cases pooled
            · exact offered.2.remains (settling.others _ parent)
      · have values : entry.tx.vin.map (CoinsMap.valueOf duplicate) =
            entry.tx.vin.map (spentValue known) :=
          List.map_congr_left fun txin inside => settling.origins.value_eq (unspent txin inside)
        rw [values]
        exact admitted.values spends

/-- **One transaction is put into the coins.** -/
theorem Settling.next {duplicate : CoinsMap} {entry : CTxMemPoolEntry}
    {rest : List CTxMemPoolEntry}
    (settling : Settling known pool chain.coinsTip.coins duplicate (entry :: rest))
    (ready : duplicate.haveInputs entry.tx = true) :
    ∃ after, checkAndUpdate ctx chain duplicate entry = some after ∧
      Settling known pool chain.coinsTip.coins after rest := by
  have held := settling.held entry List.mem_cons_self
  have admitted := indexed.admitted held
  obtain ⟨left, undo, marked⟩ : ∃ left undo, markSpent entry.tx duplicate = some (left, undo) := by
    unfold markSpent
    split
    · rename_i spends
      obtain ⟨left, undos, spent⟩ := exists_spendInputs (fun txin inside =>
        (settling.origins.spendable_of_isAvailable
          (haveInputs_eq_true.mp ready spends txin inside)).2) (admitted.distinct spends)
      rw [spent]
      exact ⟨left, ⟨undos⟩, rfl⟩
    · exact ⟨duplicate, {}, rfl⟩
  have updates : duplicate.updateCoins entry.tx 1000000 =
      some (addOutputs entry.tx 1000000 left, undo) := by
    rw [updateCoins, marked]
    rfl
  have distinct := settling.distinct
  rw [List.map_cons, List.nodup_cons] at distinct
  refine ⟨addOutputs entry.tx 1000000 left, ?_, ?_, ?_, ?_, distinct.2, ?_⟩
  · rw [checkAndUpdate,
      if_pos (settling.checkInputValues indexed best backed List.mem_cons_self ready), updates]
    rfl
  · exact (settling.origins.remains (remains_markSpent marked)).addOutputs admitted.named _
  · intro txid absent
    have different : txid ≠ entry.tx.hash := by
      rintro rfl
      rw [held] at absent
      cases absent
    rw [addOutputs, modifyCoins_of_ne _ _ different]
    exact (settling.others txid absent).trans (remains_markSpent marked txid)
  · intro other member
    exact settling.held other (List.mem_cons_of_mem _ member)
  · intro other member spends txin inside absent
    have heldOther := settling.held other (List.mem_cons_of_mem _ member)
    rw [unspent_updateCoins admitted.outputs updates]
    split
    · rename_i parent
      obtain ⟨-, out, found, -, spendable, -⟩ :=
        (indexed.admitted heldOther).inputs spends txin inside
      rw [← parent, admitted.named] at found
      exact ⟨out, found, spendable⟩
    · rename_i parent
      refine ⟨settling.found other (List.mem_cons_of_mem _ member) spends txin inside ?_, ?_⟩
      · rw [List.map_cons, List.mem_cons, not_or]
        exact ⟨fun same => parent same.symm, absent⟩
      · intro out spent sameHash sameIndex
        unfold CTransaction.spent at spent
        split at spent
        · rename_i ordinary
          obtain ⟨txin', inside', rfl⟩ := List.mem_map.mp spent
          have same := indexed.marked.hash_unique held heldOther ordinary spends inside' inside
            (COutPoint.eq_of_toNat sameHash sameIndex)
          exact distinct.1 (same ▸ List.mem_map_of_mem member)
        · cases spent

/-! ## The two loops -/

omit best in
/-- The assertions on the inputs of a transaction of the pool. -/
theorem all_checkPoolInput (origins : chain.coinsTip.coins.FromKnown known)
    {hash : Uint256} {tx : CTransaction} (held : pool.lookup hash = some tx) :
    tx.vin.zipIdx.all (pool.checkPoolInput chain.coinsTip.coins tx) = true := by
  rw [List.all_eq_true]
  rintro ⟨txin, i⟩ member
  have here := List.mk_mem_zipIdx_iff_getElem?.mp member
  have inside := List.mem_of_getElem? here
  obtain ⟨same, admitted⟩ := indexed.held hash tx held
  have kind := admitted.uniform.kinds _ inside
  unfold checkPoolInput
  rw [Bool.and_eq_true]
  cases spends : tx.spendsInputs with
  | false =>
      have absent : pool.lookup txin.prevout.hash = none := by
        rw [admitted.uniform.hash_eq_zero spends inside]
        by_contra present
        obtain ⟨other, there⟩ := Option.ne_none_iff_exists'.mp present
        obtain ⟨zero, admittedOther⟩ := indexed.held 0 other there
        exact admittedOther.nonzero zero
      simp only [absent, kind, spends, Bool.not_false, Bool.true_or, and_self]
  | true =>
      obtain ⟨-, out, found, spendable⟩ := admitted.inputs spends txin inside
      have mark := (indexed.marks txin.prevout ⟨hash, i⟩).mpr ⟨tx, txin, held, spends, here, rfl⟩
      have marked : (pool.mapNextTx.lookup txin.prevout == some ⟨tx.hash, i⟩) = true := by
        rw [mark, same, beq_self_eq_true]
      refine ⟨?_, Bool.or_eq_true_iff.mpr (Or.inr marked)⟩
      dsimp only
      cases parent : pool.lookup txin.prevout.hash with
      | some tx2 =>
          obtain ⟨sameParent, admittedParent⟩ := indexed.held _ _ parent
          rw [← sameParent, admittedParent.named] at found
          simp only [found, Option.any_some, spendable.1, Bool.not_false]
      | none =>
          rcases backed hash tx held spends txin inside with pooled | offered
          · rw [parent] at pooled
            cases pooled
          · simp only [origins.isAvailable_of_unspent found spendable offered.1, Bool.or_true]

omit best backed

/-- A transaction that does not wait has no parent in the pool. -/
theorem lookup_eq_none_of_dependsWait {hash : Uint256} {tx : CTransaction}
    (held : pool.lookup hash = some tx) (spends : tx.spendsInputs = true)
    (waits : pool.dependsWait tx = false) :
    ∀ txin ∈ tx.vin, pool.lookup txin.prevout.hash = none := by
  have ordinary : ∀ txin ∈ tx.vin, txin.isZerocoinSpend = false := by
    intro txin inside
    rw [(indexed.admitted held).uniform.kinds _ inside, spends]
    rfl
  have loop : ∀ (vin : List CTxIn) (start : Bool), (∀ txin ∈ vin, txin.isZerocoinSpend = false) →
      vin.foldl (fun fDependsWait txin =>
        if txin.isZerocoinSpend then false
        else if (pool.lookup txin.prevout.hash).isSome then true
        else fDependsWait) start = false →
      start = false ∧ ∀ txin ∈ vin, pool.lookup txin.prevout.hash = none := by
    intro vin
    induction vin with
    | nil =>
        intro start _ ended
        exact ⟨ended, by simp⟩
    | cons txin rest ih =>
        intro start plain ended
        rw [List.forall_mem_cons] at plain ⊢
        rw [List.foldl_cons] at ended
        obtain ⟨first, others⟩ := ih _ plain.2 ended
        simp only [plain.1, Bool.false_eq_true, if_false] at first
        split at first
        · cases first
        · rename_i absent
          exact ⟨first, Option.not_isSome_iff_eq_none.mp absent, others⟩
  exact (loop tx.vin false ordinary waits).2

include best backed

/-- **The first loop** goes through all entries. -/
theorem foldlM_checkEntry (origins : chain.coinsTip.coins.FromKnown known)
    (rest : List CTxMemPoolEntry) (state : CheckState)
    (settling : Settling known pool chain.coinsTip.coins state.mempoolDuplicate
      (rest ++ state.waitingOnDependants)) :
    ∃ last, rest.foldlM (pool.checkEntry ctx chain) state = some last ∧
      Settling known pool chain.coinsTip.coins last.mempoolDuplicate last.waitingOnDependants ∧
      last.checkTotal = state.checkTotal + (rest.map CTxMemPoolEntry.nTxSize).sum := by
  induction rest generalizing state with
  | nil => exact ⟨state, rfl, settling, rfl⟩
  | cons entry rest ih =>
      have member : entry ∈ entry :: rest ++ state.waitingOnDependants := List.mem_cons_self
      have held := settling.held entry member
      have asserted : entry.tx.vin.zipIdx.all (pool.checkPoolInput chain.coinsTip.coins entry.tx) =
        true := all_checkPoolInput indexed backed origins held
      rw [List.foldlM_cons, List.map_cons, List.sum_cons]
      cases waits : pool.dependsWait entry.tx with
      | true =>
          have step : pool.checkEntry ctx chain state entry = some { state with
              waitingOnDependants := state.waitingOnDependants ++ [entry]
              checkTotal := state.checkTotal + entry.nTxSize } := by
            simp [checkEntry, asserted, waits]
          rw [step, Option.bind_eq_bind, Option.bind_some]
          have moved : (entry :: rest ++ state.waitingOnDependants).Perm
              (rest ++ (state.waitingOnDependants ++ [entry])) := by
            rw [List.cons_append, ← List.append_assoc, ← List.singleton_append]
            exact List.perm_append_comm
          obtain ⟨last, ran, settled, total⟩ := ih { state with
            waitingOnDependants := state.waitingOnDependants ++ [entry]
            checkTotal := state.checkTotal + entry.nTxSize } (settling.perm moved)
          exact ⟨last, ran, settled, by rw [total, Nat.add_assoc]⟩
      | false =>
          have ready : state.mempoolDuplicate.haveInputs entry.tx = true := by
            apply settling.haveInputs indexed member
            intro spends txin inside parent
            obtain ⟨other, left, same⟩ := List.mem_map.mp parent
            have absent := lookup_eq_none_of_dependsWait indexed held spends waits txin inside
            rw [← same, settling.held other left] at absent
            cases absent
          obtain ⟨after, processed, settled⟩ := settling.next indexed best backed ready
          have step : pool.checkEntry ctx chain state entry = some { state with
              mempoolDuplicate := after
              checkTotal := state.checkTotal + entry.nTxSize } := by
            simp [checkEntry, asserted, waits, processed]
          rw [step, Option.bind_eq_bind, Option.bind_some]
          obtain ⟨last, ran, settled, total⟩ := ih { state with
            mempoolDuplicate := after
            checkTotal := state.checkTotal + entry.nTxSize } settled
          exact ⟨last, ran, settled, by rw [total, Nat.add_assoc]⟩

/-- **No assertion of `check` fails.** -/
theorem check_eq_true (origins : chain.coinsTip.coins.FromKnown known) :
    pool.check ctx chain = true := by
  have initial : Settling known pool chain.coinsTip.coins chain.coinsTip.coins
      (pool.inOrder ++ []) := by
    rw [List.append_nil]
    refine ⟨origins, fun txid _ => .refl _, ?_, nodup_inOrder indexed.named, ?_⟩
    · intro entry member
      exact lookup_of_mem_inOrder indexed.named member
    · intro entry member spends txin inside absent
      rcases backed _ _ (lookup_of_mem_inOrder indexed.named member) spends txin inside with
        pooled | offered
      · obtain ⟨parent, found⟩ := Option.isSome_iff_exists.mp pooled
        obtain ⟨other, there, rfl⟩ := lookup_eq_some.mp found
        refine absurd (List.mem_map.mpr ⟨other, mem_inOrder.mpr ⟨_, there⟩, ?_⟩) absent
        exact (indexed.held _ _ found).1
      · exact offered.1
  obtain ⟨last, ran, settled, total⟩ :
      ∃ last, pool.inOrder.foldlM (pool.checkEntry ctx chain)
        { mempoolDuplicate := chain.coinsTip.coins } = some last ∧
      Settling known pool chain.coinsTip.coins last.mempoolDuplicate last.waitingOnDependants ∧
      last.checkTotal = 0 + (pool.inOrder.map CTxMemPoolEntry.nTxSize).sum :=
    foldlM_checkEntry indexed best backed origins _ _ initial
  obtain ⟨final, drained⟩ : ∃ final, Foundation.RetryQueue.drain
      (fun (coins : CoinsMap) (entry : CTxMemPoolEntry) => coins.haveInputs entry.tx)
      (checkAndUpdate ctx chain) 0 last.mempoolDuplicate last.waitingOnDependants = some final :=
    @Foundation.RetryQueue.drain_eq_some _ _ _ _ (Settling known pool chain.coinsTip.coins)
      (fun _ _ _ same settling => settling.perm same)
      (fun _ _ nonempty settling => settling.exists_ready indexed nonempty)
      (fun _ _ _ settling ready => settling.next indexed best backed ready) _ _ settled
  have marks : pool.mapNextTx.entries.all pool.checkMark = true := by
    rw [List.all_eq_true]
    rintro ⟨out, spender⟩ member
    have mark := AList.mem_lookup_iff.mpr member
    obtain ⟨tx, txin, held, -, here, rfl⟩ := (indexed.marks out spender).mp mark
    simp [checkMark, held, here]
  unfold check
  rw [ran]
  dsimp only
  rw [drained, marks, total, Nat.zero_add, sum_inOrder, ← indexed.total]
  simp

end

end TxPool

end GiantCore
