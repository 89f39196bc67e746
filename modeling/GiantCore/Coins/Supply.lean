import GiantCore.Coins.Origins
import Mathlib.Algebra.BigOperators.Finprod
import Mathlib.Data.BitVec
import Mathlib.Tactic.Linarith
import Mathlib.Tactic.Ring

/-! # The total of the unspent outputs

Connecting transactions changes the total value of the unspent outputs of the coin
database by what the loop of `ConnectBlock` adds up: the outputs of a transaction come in,
but for the unspendable ones that `FromTx` drops, and the outputs that it spends go out.
An entry that is overwritten would take its value with it.
-/

namespace GiantCore

open Foundation.TrimmedArray

/-- The value of the unspent outputs of coins. -/
def CCoins.unspentValue (coins : CCoins) : CAmount :=
  ((coins.vout.filter fun out => !out.isNull).map CTxOut.nValue).sum

/-- The value of the unspendable outputs of a transaction, which `FromTx` drops. -/
def CTransaction.droppedValue (tx : CTransaction) : CAmount :=
  ((tx.vout.filter fun out => CScript.isUnspendable out.scriptPubKey).map CTxOut.nValue).sum

/-- The value of all unspent outputs. -/
noncomputable def CoinsMap.unspentTotal (view : CoinsMap) : CAmount :=
  ∑ᶠ txid, (view txid).unspentValue

namespace CCoins

theorem unspentValue_of_isPruned {coins : CCoins} (pruned : coins.isPruned = true) :
    coins.unspentValue = 0 := by
  have none : (coins.vout.filter fun out => !out.isNull) = [] := by
    rw [isPruned, List.all_eq_true] at pruned
    rw [List.filter_eq_nil_iff]
    intro out member
    rw [pruned out member]
    exact Bool.false_ne_true
  rw [unspentValue, none]
  rfl

/-- Null outputs at the end have no value. -/
@[simp] theorem unspentValue_cleanup (coins : CCoins) :
    coins.cleanup.unspentValue = coins.unspentValue := by
  have split : coins.vout.rdropWhile CTxOut.isNull ++ coins.vout.rtakeWhile CTxOut.isNull =
    coins.vout := List.rdropWhile_append_rtakeWhile
  have dropped : ((coins.vout.rtakeWhile CTxOut.isNull).filter fun out => !out.isNull) = [] := by
    rw [List.filter_eq_nil_iff]
    intro out member
    rw [List.mem_rtakeWhile_imp member]
    exact Bool.false_ne_true
  unfold unspentValue cleanup
  conv_rhs => rw [← split, List.filter_append, dropped, List.append_nil]

/-- An output is nulled. -/
theorem unspentValue_set {coins : CCoins} {n : Nat} {out : CTxOut}
    (found : coins.vout[n]? = some out) (unspent : out.isNull = false) :
    ({ coins with vout := coins.vout.set n CTxOut.null } : CCoins).unspentValue =
      coins.unspentValue - out.nValue := by
  have outputs : ∀ (vout : List CTxOut) (n : Nat), vout[n]? = some out →
      (((vout.set n CTxOut.null).filter fun out => !out.isNull).map CTxOut.nValue).sum =
        ((vout.filter fun out => !out.isNull).map CTxOut.nValue).sum - out.nValue := by
    intro vout
    induction vout with
    | nil =>
        intro n found
        cases found
    | cons first rest ih =>
        intro n found
        cases n with
        | zero =>
            cases found
            simp [unspent, CTxOut.isNull_null]
        | succ n =>
            rw [List.set_cons_succ]
            cases null : first.isNull with
            | true => simpa [null] using ih n found
            | false =>
                simp only [List.filter_cons, null, Bool.not_false, ↓reduceIte, List.map_cons,
                  List.sum_cons, ih n found]
                ring
  exact outputs coins.vout n found

/-- **Spending** takes the value of the output out. -/
theorem unspentValue_spend {coins spent : CCoins} {n : Nat} {undo : CTxInUndo}
    (spends : coins.spend n = some (spent, undo)) :
    spent.unspentValue = coins.unspentValue - undo.txout.nValue := by
  obtain ⟨out, found, unspent, rfl, rfl⟩ := spend_eq_some spends
  have value := unspentValue_set found unspent
  rw [← unspentValue_cleanup] at value
  rw [apply_ite CTxInUndo.txout, ite_self]
  exact value

/-- **The coins of a transaction** have the value of its outputs, less that of the
unspendable ones. -/
theorem unspentValue_fromTx {tx : CTransaction} (nHeight : Int)
    (values : ∀ out ∈ tx.vout, out.isNull = false) :
    (fromTx tx nHeight).unspentValue = (tx.vout.map CTxOut.nValue).sum - tx.droppedValue := by
  have outputs : ∀ vout : List CTxOut, (∀ out ∈ vout, out.isNull = false) →
      (((vout.map fun out => if CScript.isUnspendable out.scriptPubKey then CTxOut.null
        else out).filter fun out => !out.isNull).map CTxOut.nValue).sum =
        (vout.map CTxOut.nValue).sum -
          ((vout.filter fun out => CScript.isUnspendable out.scriptPubKey).map
            CTxOut.nValue).sum := by
    intro vout
    induction vout with
    | nil =>
        intro _
        rfl
    | cons first rest ih =>
        intro values
        rw [List.forall_mem_cons] at values
        have later := ih values.2
        cases unspendable : CScript.isUnspendable first.scriptPubKey with
        | true =>
            simp only [List.map_cons, List.filter_cons, unspendable, CTxOut.isNull_null,
              Bool.not_true, Bool.false_eq_true, ↓reduceIte, List.sum_cons, later]
            ring
        | false =>
            simp only [List.map_cons, List.filter_cons, unspendable, values.1, Bool.not_false,
              Bool.false_eq_true, ↓reduceIte, List.sum_cons, later]
            ring
  unfold fromTx clearUnspendable
  rw [unspentValue_cleanup]
  exact outputs tx.vout values

end CCoins

namespace CoinsMap

open CCoins

@[simp] theorem unspentTotal_clear : unspentTotal (fun _ => CCoins.clear) = 0 := by
  unfold unspentTotal
  exact finsum_zero

/-- An entry is replaced. -/
theorem unspentTotal_modifyCoins (view : CoinsMap) (txid : Uint256) (coins : CCoins) :
    (view.modifyCoins txid coins).unspentTotal =
      view.unspentTotal - (view txid).unspentValue + coins.unspentValue := by
  have finite : Finite Uint256 := Finite.of_equiv _ BitVec.equivFin.symm.toEquiv
  have all : Fintype Uint256 := Fintype.ofFinite _
  have values : (fun other => (view.modifyCoins txid coins other).unspentValue) =
      Function.update (fun other => (view other).unspentValue) txid coins.unspentValue := by
    funext other
    by_cases same : other = txid
    · subst same
      rw [modifyCoins_self, Function.update_self, unspentValue_cleanup]
    · rw [modifyCoins_of_ne view coins same, Function.update_of_ne same]
  have removed : ∑ other ∈ Finset.univ \ {txid}, (view other).unspentValue +
      ∑ other ∈ {txid}, (view other).unspentValue = ∑ other, (view other).unspentValue :=
    Finset.sum_sdiff (Finset.subset_univ {txid})
  rw [Finset.sum_singleton] at removed
  unfold unspentTotal
  rw [values, finsum_eq_sum_of_fintype, finsum_eq_sum_of_fintype,
    Finset.sum_update_of_mem (Finset.mem_univ txid), ← removed]
  ring

/-! ## One transaction -/

/-- The records of the inputs hold the outputs that are spent. -/
theorem txout_spendInputs {vin : List CTxIn} {view after : CoinsMap} {undos : List CTxInUndo}
    (spends : spendInputs vin view = some (after, undos)) :
    List.Forall₂ (fun txin undo =>
      (view txin.prevout.hash).vout[txin.prevout.n.toNat]? = some undo.txout ∧
        undo.txout.isNull = false) vin undos := by
  induction vin generalizing view undos with
  | nil =>
      cases spends
      exact .nil
  | cons txin rest ih =>
      obtain ⟨coins, undo, others, first, remaining, rfl⟩ := spendInputs_cons spends
      obtain ⟨out, found, unspent, rfl, record⟩ := spend_eq_some first
      have txout : undo.txout = out := by
        rw [record, apply_ite CTxInUndo.txout, ite_self]
      refine .cons ⟨txout ▸ found, txout ▸ unspent⟩ ((ih remaining).imp ?_)
      -- what is unspent later was so before
      intro other later ⟨there, full⟩
      refine ⟨?_, full⟩
      by_cases same : other.prevout.hash = txin.prevout.hash
      · rw [same, modifyCoins_self] at there
        rw [same]
        exact ((getElem?_erase CTxOut.isNull_null full).mp
          ((getElem?_rdropWhile full).mp there)).1
      · rwa [modifyCoins_of_ne view _ same] at there

theorem getValueIn_eq {tx : CTransaction} {view after : CoinsMap} {undos : List CTxInUndo}
    (spends : spendInputs tx.vin view = some (after, undos)) :
    view.getValueIn tx = (undos.map fun undo => undo.txout.nValue).sum := by
  have outputs : ∀ (vin : List CTxIn) (undos : List CTxInUndo),
      List.Forall₂ (fun txin undo =>
        (view txin.prevout.hash).vout[txin.prevout.n.toNat]? = some undo.txout ∧
          undo.txout.isNull = false) vin undos →
      (vin.map fun txin =>
        ((view txin.prevout.hash).vout[txin.prevout.n.toNat]?.getD CTxOut.null).nValue) =
        undos.map fun undo => undo.txout.nValue := by
    intro vin undos found
    induction found with
    | nil => rfl
    | cons first _ ih => rw [List.map_cons, List.map_cons, ih, first.1, Option.getD_some]
  rw [getValueIn, outputs tx.vin undos (txout_spendInputs spends)]

theorem unspentTotal_spendInputs {vin : List CTxIn} {view after : CoinsMap}
    {undos : List CTxInUndo} (spends : spendInputs vin view = some (after, undos)) :
    after.unspentTotal =
      view.unspentTotal - (undos.map fun undo => undo.txout.nValue).sum := by
  induction vin generalizing view undos with
  | nil =>
      cases spends
      simp
  | cons txin rest ih =>
      obtain ⟨coins, undo, others, first, remaining, rfl⟩ := spendInputs_cons spends
      rw [ih remaining, unspentTotal_modifyCoins, unspentValue_spend first, List.map_cons,
        List.sum_cons]
      ring

theorem unspentTotal_addOutputs {tx : CTransaction} (nHeight : Int) {view : CoinsMap}
    (values : ∀ out ∈ tx.vout, out.isNull = false) (fresh : (view tx.hash).isPruned = true) :
    (addOutputs tx nHeight view).unspentTotal =
      view.unspentTotal + (tx.vout.map CTxOut.nValue).sum - tx.droppedValue := by
  rw [addOutputs, unspentTotal_modifyCoins, unspentValue_of_isPruned fresh,
    unspentValue_fromTx nHeight values]
  ring

end CoinsMap

/-! ## A block -/

namespace ConnectContext

open CoinsMap

variable (ctx : ConnectContext)

/-- **One round of the loop of `ConnectBlock`** without spends of zerocoins. -/
theorem unspentTotal_connectTx {nHeight : Int} {done rest : List CTransaction}
    {tx : CTransaction} {state next : ConnectState} {undo : CTxUndo}
    (ordinary : tx.hasZerocoinSpendInputs = false)
    (connects : ctx.connectTx nHeight done tx state = some (undo, next))
    (fresh : OverwritesNone nHeight (tx :: rest) state.view) :
    next.view.unspentTotal - (next.nValueOut - next.nValueIn) =
      state.view.unspentTotal - (state.nValueOut - state.nValueIn) - tx.droppedValue := by
  obtain ⟨amounts, counted, valueIn, valueOut⟩ := ctx.connectTx_amounts connects
  obtain ⟨after, mints, marked, created, -, values⟩ := ctx.connectTx_cases connects
  have pruned := (fresh after undo marked).1
  simp only [txAmounts, Option.bind_eq_bind, Option.bind_eq_some_iff] at counted
  obtain ⟨nValueOut, total, counted⟩ := counted
  have sum := CTransaction.sum_of_getValueOut total
  rw [if_neg (by rw [ordinary]; exact Bool.false_ne_true)] at counted
  rw [created, unspentTotal_addOutputs nHeight values pruned, valueIn, valueOut, ← sum]
  split at counted
  · rename_i coinBase
    cases counted
    rcases markSpent_cases marked with ⟨spends, -⟩ | ⟨-, rfl⟩
    · rw [CTransaction.spendsInputs, coinBase] at spends
      cases spends
    · ring
  · rename_i spends
    split at counted
    · cases counted
      rcases markSpent_cases marked with ⟨-, done⟩ | ⟨spendsNone, -⟩
      · rw [unspentTotal_spendInputs done, getValueIn_eq done]
        ring
      · rw [Bool.not_eq_true] at spends
        rw [CTransaction.spendsInputs, ordinary, spends] at spendsNone
        cases spendsNone
    · cases counted

/-- **The loop of `ConnectBlock`** without spends of zerocoins and overwritten entries. -/
theorem unspentTotal_connectTxs {nHeight : Int} {done txs : List CTransaction}
    {state last : ConnectState} {undos : List CTxUndo}
    (ordinary : ∀ tx ∈ txs, tx.hasZerocoinSpendInputs = false)
    (connects : ctx.connectTxs nHeight done txs state = some (undos, last))
    (fresh : OverwritesNone nHeight txs state.view) :
    last.view.unspentTotal - (last.nValueOut - last.nValueIn) =
      state.view.unspentTotal - (state.nValueOut - state.nValueIn) -
        (txs.map CTransaction.droppedValue).sum := by
  induction txs generalizing done state undos with
  | nil =>
      cases connects
      simp
  | cons tx rest ih =>
      obtain ⟨undo, next, others, first, remaining, rfl⟩ := ctx.connectTxs_cons connects
      rw [List.forall_mem_cons] at ordinary
      rw [ih ordinary.2 remaining (OverwritesNone.connectTx ctx fresh first),
        ctx.unspentTotal_connectTx ordinary.1 first fresh, List.map_cons, List.sum_cons]
      ring

end ConnectContext

end GiantCore
