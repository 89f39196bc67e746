import GiantCore.Mempool.ChainCoins
import GiantCore.Mempool.Check

/-! # Accepting a transaction

`AcceptToMemoryPool` on the pool with its entries, against the coins of the chain and of
the pool. A transaction that passes its tests is one that the pool can hold, unless it has
zerocoin spends beside other inputs: those are refused only while zerocoin is active, and
their other inputs are neither tested nor marked.
-/

namespace GiantCore

open CoinsMap
open CValidationState (require_eq_ok)
open Foundation.Checks (bind_eq_ok mapError_eq_ok)

/-- The node looks transactions up in this pool. -/
def ChainContext.withPool (ctx : ChainContext) (pool : TxPool) : ChainContext :=
  { ctx with mempool := pool.lookup }

/-- The test of `AcceptToMemoryPool` whether zerocoin is active. -/
def ChainContext.poolZerocoinActive (ctx : ChainContext) (chain : ChainState) : Bool :=
  decide ((ctx.nodeAt chain).height ≥ ctx.params.nZerocoinStartHeight)

/-- Zerocoin spends beside other inputs. -/
def CTransaction.mixed (tx : CTransaction) : Bool :=
  tx.hasZerocoinSpendInputs && !tx.vin.all CTxIn.isZerocoinSpend

namespace TxPool

/-- What `AcceptToMemoryPool` reads: the coins are those of the chain and the pool, the
rest is as given. The scripts are what is left of `checkInputs`. -/
def context (pool : TxPool) (ctx : ChainContext) (rules : MempoolContext) (chain : ChainState) :
    MempoolContext :=
  let view := pool.view chain.coinsTip.coins
  { rules with
    validation := (ctx.withPool pool).validationAt chain
    haveCoins := fun hash => !(view hash).isPruned
    haveInputs := view.haveInputs
    getValueIn := view.getValueIn
    validOutPoint := ctx.validOutPoint
    checkInputs := fun tx =>
      checkInputValues ctx chain ⟨view, chain.coinsTip.hashBlock⟩ tx && rules.checkInputs tx }

/-- `AcceptToMemoryPool`: the pool with the transaction, where it is accepted. -/
def accept (ctx : ChainContext) (rules : MempoolContext) (chain : ChainState)
    (state : CValidationState) (fLimitFree fRejectInsaneFee ignoreFees : Bool) (pool : TxPool)
    (tx : CTransaction) : Option TxPool :=
  match acceptToMemoryPool (pool.context ctx rules chain) tx state pool.reads fLimitFree
      fRejectInsaneFee ignoreFees with
  | .ok _ => some (pool.addUnchecked ⟨tx, ctx.validation.getTxSize tx⟩)
  | .error _ => none

/-! ## The tests -/

section

variable {state : CValidationState}

/-- The outpoints of inputs that are no zerocoin spends differ. -/
theorem nodup_of_checkTxIn {vin : List CTxIn} {found last : List COutPoint × Nat}
    (ordinary : ∀ txin ∈ vin, txin.isZerocoinSpend = false)
    (checked : vin.foldlM (checkTxIn state) found = .ok last) :
    (vin.map CTxIn.prevout).Nodup ∧ ∀ txin ∈ vin, txin.prevout ∉ found.1 := by
  induction vin generalizing found with
  | nil => simp
  | cons txin rest ih =>
      rw [List.forall_mem_cons] at ordinary ⊢
      rw [List.foldlM_cons, bind_eq_ok] at checked
      obtain ⟨middle, first, later⟩ := checked
      simp only [checkTxIn, bind_eq_ok, require_eq_ok, ordinary.1, Bool.not_false, if_true] at first
      obtain ⟨_, new, same⟩ := first
      cases same
      obtain ⟨distinct, others⟩ := ih ordinary.2 later
      refine ⟨?_, by simpa using new, ?_⟩
      · rw [List.map_cons, List.nodup_cons]
        refine ⟨?_, distinct⟩
        intro member
        obtain ⟨other, inside, same⟩ := List.mem_map.mp member
        exact others other inside (same ▸ List.mem_cons_self)
      · intro other inside known
        exact others other inside (List.mem_cons_of_mem _ known)

theorem isNull_of_checkTxOut {ctx : ValidationContext} {tx : CTransaction} {active : Bool}
    {vout : List CTxOut} {start total : CAmount}
    (checked : vout.foldlM (checkTxOut ctx tx active state) start = .ok total) :
    ∀ out ∈ vout, out.isNull = false := by
  refine (Foundation.Checks.forall_of_foldlM_eq_ok (fun _ _ => True)
    (fun (out : CTxOut) _ => out.isNull = false) (fun _ => trivial) (fun _ _ => trivial)
    (fun done _ => done) ?_ checked).2
  intro out _ before after passed
  simp only [checkTxOut, bind_eq_ok, require_eq_ok, Bool.not_eq_true', decide_eq_false_iff_not,
    not_lt] at passed
  obtain ⟨_, -, _, nonneg, -⟩ := passed
  refine ⟨trivial, ?_⟩
  unfold CTxOut.isNull
  rw [beq_eq_false_iff_ne]
  intro null
  rw [null] at nonneg
  exact absurd nonneg (by decide)

/-- What `CheckTransaction` says of the inputs and outputs. -/
theorem checkTransaction_shape {ctx : ValidationContext} {tx : CTransaction}
    {active fRejectBadUTXO fake : Bool}
    (checked : checkTransaction ctx tx active fRejectBadUTXO state fake = .ok ()) :
    (∀ out ∈ tx.vout, out.isNull = false) ∧
      (tx.hasZerocoinSpendInputs = false → (tx.vin.map CTxIn.prevout).Nodup) ∧
      (active = true → tx.mixed = false) := by
  simp only [checkTransaction, bind_eq_ok] at checked
  obtain ⟨_, -, _, -, _, -, _, outputs, found, inputs, zerocoins⟩ := checked
  refine ⟨isNull_of_checkTxOut outputs, ?_, ?_⟩
  · intro none
    apply (nodup_of_checkTxIn _ inputs).1
    intro txin member
    rw [CTransaction.hasZerocoinSpendInputs, List.any_eq_false] at none
    simpa using none txin member
  · intro isActive
    unfold CTransaction.mixed
    cases has : tx.hasZerocoinSpendInputs with
    | false => rfl
    | true =>
        simp only [isActive, checkActiveZerocoins, has, if_true, bind_eq_ok,
          require_eq_ok] at zerocoins
        obtain ⟨_, ⟨_, -, _, all, -⟩, -⟩ := zerocoins
        rw [all]
        rfl

/-- The last test is that of the inputs. -/
theorem checkInputs_of_checkPoolInputs {ctx : MempoolContext} {tx : CTransaction}
    {fLimitFree fRejectInsaneFee ignoreFees : Bool}
    (checked : checkPoolInputs ctx tx state fLimitFree fRejectInsaneFee ignoreFees = .ok ()) :
    ctx.checkInputs tx = true := by
  unfold checkPoolInputs at checked
  cases values : tx.getValueOut with
  | none =>
      rw [values] at checked
      split at checked
      · simp only [bind_eq_ok] at checked
        obtain ⟨_, -, _, -, _, -, throws⟩ := checked
        cases throws
      · simp only [bind_eq_ok] at checked
        obtain ⟨_, -, _, -, _, -, throws⟩ := checked
        cases throws
  | some nValueOut =>
      rw [values] at checked
      split at checked
      · simp only [bind_eq_ok, require_eq_ok] at checked
        obtain ⟨_, -, _, -, _, -, _, -, _, -, passes⟩ := checked
        exact passes
      · simp only [bind_eq_ok, require_eq_ok] at checked
        obtain ⟨_, -, _, -, _, -, _, -, _, -, passes⟩ := checked
        exact passes

end

/-- **What a transaction that is accepted has passed.** -/
structure PassesTests (ctx : ChainContext) (chain : ChainState) (pool : TxPool)
    (tx : CTransaction) : Prop where
  notCoinBase : tx.isCoinBase = false
  notCoinStake : tx.isCoinStake = false
  outputs : ∀ out ∈ tx.vout, out.isNull = false
  distinct : tx.spendsInputs = true → (tx.vin.map CTxIn.prevout).Nodup
  unmixed : ctx.poolZerocoinActive chain = true → tx.mixed = false
  absent : pool.lookup tx.hash = none
  free : tx.spendsInputs = true → ∀ txin ∈ tx.vin, pool.mapNextTx.lookup txin.prevout = none
  values : checkInputValues ctx chain
    ⟨pool.view chain.coinsTip.coins, chain.coinsTip.hashBlock⟩ tx = true

theorem accept_eq_some {ctx : ChainContext} {rules : MempoolContext} {chain : ChainState}
    {state : CValidationState} {fLimitFree fRejectInsaneFee ignoreFees : Bool}
    {pool after : TxPool} {tx : CTransaction}
    (accepted : pool.accept ctx rules chain state fLimitFree fRejectInsaneFee ignoreFees tx =
      some after) :
    PassesTests ctx chain pool tx ∧
      after = pool.addUnchecked ⟨tx, ctx.validation.getTxSize tx⟩ := by
  unfold accept at accepted
  split at accepted
  · rename_i result ran
    cases accepted
    refine ⟨?_, rfl⟩
    simp only [acceptToMemoryPool, bind_eq_ok] at ran
    obtain ⟨_, loose, _, conflicts, _, inputs, -⟩ := ran
    simp only [checkLooseTransaction, bind_eq_ok, mapError_eq_ok, require_eq_ok,
      Bool.not_eq_true'] at loose
    obtain ⟨_, -, _, checked, _, notCoinBase, _, notCoinStake, -⟩ := loose
    obtain ⟨outputs, distinct, unmixed⟩ := checkTransaction_shape checked
    simp only [checkConflicts, bind_eq_ok, require_eq_ok, Option.isNone_iff_eq_none,
      Bool.or_eq_true] at conflicts
    obtain ⟨_, absent, _, -, free⟩ := conflicts
    have passes : (pool.context ctx rules chain).checkInputs tx = true :=
      checkInputs_of_checkPoolInputs inputs
    have ordinary : tx.spendsInputs = true → tx.hasZerocoinSpendInputs = false := by
      intro spends
      rw [CTransaction.spendsInputs, Bool.and_eq_true] at spends
      simpa using spends.2
    refine ⟨notCoinBase, notCoinStake, outputs, fun spends => distinct (ordinary spends),
      unmixed, absent, ?_, (Bool.and_eq_true_iff.mp passes).1⟩
    intro spends txin member
    rcases free with zerocoin | free
    · rw [ordinary spends] at zerocoin
      cases zerocoin
    · have none := List.all_eq_true.mp free txin member
      exact Option.map_eq_none_iff.mp (Option.isNone_iff_eq_none.mp none)
  · cases accepted

/-! ## What the pool can hold -/

section

variable {known : Uint256 → CTransaction} {ctx : ChainContext} {chain : ChainState}
  {pool : TxPool} {tx : CTransaction} {top : Int}

theorem view_of_none {coins : CoinsMap} {txid : Uint256} (absent : pool.lookup txid = none) :
    pool.view coins txid = coins txid := by
  unfold view
  rw [absent]

theorem view_of_some {coins : CoinsMap} {txid : Uint256} (held : pool.lookup txid = some tx) :
    pool.view coins txid = .fromTx tx 0x7FFFFFFF := by
  unfold view
  rw [held]

theorem fromKnown_view {coins : CoinsMap} (indexed : Indexed known ctx.params pool)
    (origins : coins.FromKnown known) : (pool.view coins).FromKnown known := by
  refine ⟨?_, ?_, ?_⟩
  · intro txid n out found full
    cases held : pool.lookup txid with
    | none =>
        rw [view_of_none held] at found
        exact origins.outputs txid n out found full
    | some parent =>
        obtain ⟨rfl, admitted⟩ := indexed.held txid parent held
        rw [view_of_some held] at found
        rw [admitted.named]
        exact FromKnown.getElem?_fromTx found full
  · intro txid alive generated
    cases held : pool.lookup txid with
    | none =>
        rw [view_of_none held] at alive generated
        exact origins.coinBase txid alive generated
    | some parent =>
        obtain ⟨rfl, admitted⟩ := indexed.held txid parent held
        rw [view_of_some held] at generated
        rw [admitted.named]
        exact generated
  · intro txid alive generated
    cases held : pool.lookup txid with
    | none =>
        rw [view_of_none held] at alive generated
        exact origins.coinStake txid alive generated
    | some parent =>
        obtain ⟨rfl, admitted⟩ := indexed.held txid parent held
        rw [view_of_some held] at generated
        rw [admitted.named]
        exact generated

/-- The inputs of a transaction that passes are there. -/
theorem PassesTests.available (passes : PassesTests ctx chain pool tx)
    (spends : tx.spendsInputs = true) {txin : CTxIn} (member : txin ∈ tx.vin) :
    (pool.view chain.coinsTip.coins txin.prevout.hash).isAvailable txin.prevout.n.toNat = true := by
  have found := ((checkInputValues_iff spends passes.notCoinStake).mp passes.values).1
  exact haveInputs_eq_true.mp found spends txin member

/-- **A transaction that passes the tests can be held**, unless it is mixed. -/
theorem PassesTests.admitted (passes : PassesTests ctx chain pool tx)
    (indexed : Indexed known ctx.params pool)
    (sourced : chain.coinsTip.coins.Sourced known top) (named : known tx.hash = tx)
    (nonzero : tx.hash ≠ 0) (unmixed : tx.mixed = false) : Admitted known ctx.params tx := by
  have origins : (pool.view chain.coinsTip.coins).FromKnown known :=
    fromKnown_view indexed sourced.origins
  have parent : tx.spendsInputs = true → ∀ txin ∈ tx.vin,
      txin.prevout.hash ≠ 0 ∧ Acc (SpendsFrom known) txin.prevout.hash := by
    intro spends txin member
    have available := passes.available spends member
    cases held : pool.lookup txin.prevout.hash with
    | none =>
        rw [view_of_none held] at available
        have alive := (sourced.origins.spendable_of_isAvailable available).2.isPruned
        exact ⟨sourced.nonzero _ alive, sourced.grounded _ alive⟩
    | some other =>
        obtain ⟨same, admitted⟩ := indexed.held _ _ held
        exact same ▸ ⟨admitted.nonzero, admitted.grounded⟩
  refine ⟨named, nonzero, passes.notCoinBase, passes.notCoinStake, ?_, passes.outputs,
    passes.distinct, ?_, ?_, ?_⟩
  · intro zerocoin
    rw [CTransaction.mixed, zerocoin, Bool.true_and, Bool.not_eq_false'] at unmixed
    exact List.all_eq_true.mp unmixed
  · intro spends txin member
    refine ⟨(parent spends txin member).1, ?_⟩
    exact (origins.spendable_of_isAvailable (passes.available spends member)).1
  · intro spends
    obtain ⟨-, -, -, -, values⟩ :=
      (checkInputValues_iff spends passes.notCoinStake).mp passes.values
    have same : tx.vin.map (CoinsMap.valueOf (pool.view chain.coinsTip.coins)) =
        tx.vin.map (spentValue known) := by
      apply List.map_congr_left
      intro txin member
      exact origins.value_eq
        (origins.spendable_of_isAvailable (passes.available spends member)).2
    rwa [same] at values
  · constructor
    rintro other ⟨spends, txin, member, rfl⟩
    rw [named] at spends member
    exact (parent spends txin member).2

/-- What a transaction that passes spends. -/
theorem PassesTests.offers {tip : ChainIndex} (passes : PassesTests ctx chain pool tx)
    (origins : chain.coinsTip.coins.FromKnown known)
    (best : chain.mapBlockIndex chain.coinsTip.hashBlock = some tip)
    (spends : tx.spendsInputs = true) {txin : CTxIn} (member : txin ∈ tx.vin) :
    (pool.lookup txin.prevout.hash).isSome ∨
      chain.coinsTip.coins.Offers ctx.supply (tip.nHeight + 1) txin.prevout := by
  cases held : pool.lookup txin.prevout.hash with
  | some other => exact Or.inl rfl
  | none =>
      obtain ⟨-, pindexPrev, index, mature, -⟩ :=
        (checkInputValues_iff spends passes.notCoinStake).mp passes.values
      rw [best] at index
      cases index
      have available := passes.available spends member
      have deep : (pool.view chain.coinsTip.coins txin.prevout.hash).Mature ctx.supply
        (tip.nHeight + 1) := mature txin member
      rw [view_of_none held] at available deep
      exact Or.inr ⟨(origins.spendable_of_isAvailable available).2, deep⟩

/-- **A transaction is accepted.** -/
theorem Indexed.accept {rules : MempoolContext} {state : CValidationState}
    {fLimitFree fRejectInsaneFee ignoreFees : Bool} {after : TxPool}
    (indexed : Indexed known ctx.params pool)
    (sourced : chain.coinsTip.coins.Sourced known top)
    (named : known tx.hash = tx ∧ tx.hash ≠ 0)
    (unmixed : ctx.poolZerocoinActive chain = true ∨ tx.mixed = false)
    (accepted : pool.accept ctx rules chain state fLimitFree fRejectInsaneFee ignoreFees tx =
      some after) : Indexed known ctx.params after := by
  obtain ⟨passes, rfl⟩ := accept_eq_some accepted
  apply indexed.addUnchecked _ passes.absent passes.free
  exact passes.admitted indexed sourced named.1 named.2 (unmixed.elim passes.unmixed id)

theorem Backed.accept {rules : MempoolContext} {state : CValidationState}
    {fLimitFree fRejectInsaneFee ignoreFees : Bool} {after : TxPool} {tip : ChainIndex}
    {offered : COutPoint → Prop} (backed : pool.Backed offered)
    (origins : chain.coinsTip.coins.FromKnown known)
    (best : chain.mapBlockIndex chain.coinsTip.hashBlock = some tip)
    (more : ∀ out, chain.coinsTip.coins.Offers ctx.supply (tip.nHeight + 1) out → offered out)
    (accepted : pool.accept ctx rules chain state fLimitFree fRejectInsaneFee ignoreFees tx =
      some after) : after.Backed offered := by
  obtain ⟨passes, rfl⟩ := accept_eq_some accepted
  have grows : ∀ hash, (pool.lookup hash).isSome →
      ((pool.addUnchecked ⟨tx, ctx.validation.getTxSize tx⟩).lookup hash).isSome := by
    intro hash present
    rw [lookup_addUnchecked]
    split
    · rfl
    · exact present
  intro hash other here spends txin member
  rw [lookup_addUnchecked] at here
  split at here
  · cases here
    exact (passes.offers origins best spends member).imp (grows _) (more _)
  · exact (backed hash other here spends txin member).imp_left (grows _)

end

end TxPool

end GiantCore
