import GiantCore.Coins.Undo

/-! # Where coins come from

The unspent outputs of a view are outputs of the transactions that were connected, under
their hashes. Spending takes outputs away, and a transaction adds only its own.
-/

namespace GiantCore

open Foundation.TrimmedArray

/-- The total of `GetValueOut`. -/
theorem CTransaction.sum_of_getValueOut {tx : CTransaction} {nValueOut : CAmount}
    (total : tx.getValueOut = some nValueOut) : nValueOut = (tx.vout.map CTxOut.nValue).sum := by
  have outputs : ∀ (vout : List CTxOut) (start : CAmount),
      vout.foldlM (fun (sum : CAmount) (out : CTxOut) =>
        if out.nValue < 0 then none
        else if CTransaction.maxInt64 < sum + out.nValue then none
        else some (sum + out.nValue)) start = some nValueOut →
      nValueOut = start + (vout.map CTxOut.nValue).sum := by
    intro vout
    induction vout with
    | nil =>
        intro start total
        cases total
        simp
    | cons first rest ih =>
        intro start total
        rw [List.foldlM_cons, Option.bind_eq_bind, Option.bind_eq_some_iff] at total
        obtain ⟨next, step, remaining⟩ := total
        have value : next = start + first.nValue := by
          split at step
          · cases step
          · split at step
            · cases step
            · exact (Option.some.inj step).symm
        rw [ih next remaining, value, List.map_cons, List.sum_cons, Int.add_assoc]
  simpa using outputs tx.vout 0 total

namespace CoinsMap

/-- Every unspent output of the view has an origin. -/
def ComesFrom (origin : Uint256 → Nat → CTxOut → Prop) (view : CoinsMap) : Prop :=
  ∀ (txid : Uint256) (n : Nat) (out : CTxOut), (view txid).vout[n]? = some out →
    out.isNull = false → origin txid n out

section

variable {origin : Uint256 → Nat → CTxOut → Prop} {view : CoinsMap}

theorem ComesFrom.mono {wider : Uint256 → Nat → CTxOut → Prop} (origins : view.ComesFrom origin)
    (inside : ∀ txid n out, origin txid n out → wider txid n out) : view.ComesFrom wider := by
  intro txid n out found unspent
  exact inside txid n out (origins txid n out found unspent)

/-- An entry whose outputs have an origin is put in. -/
theorem ComesFrom.modifyCoins {coins : CCoins} (origins : view.ComesFrom origin) (txid : Uint256)
    (entry : ∀ (n : Nat) (out : CTxOut), coins.vout[n]? = some out → out.isNull = false →
      origin txid n out) : (view.modifyCoins txid coins).ComesFrom origin := by
  intro other n out found unspent
  by_cases same : other = txid
  · subst same
    rw [modifyCoins_self] at found
    exact entry n out ((getElem?_rdropWhile unspent).mp found) unspent
  · rw [modifyCoins_of_ne view coins same] at found
    exact origins other n out found unspent

/-- Spending takes outputs away. -/
theorem ComesFrom.spendInputs {vin : List CTxIn} {after : CoinsMap} {undos : List CTxInUndo}
    (origins : view.ComesFrom origin)
    (spends : CoinsMap.spendInputs vin view = some (after, undos)) : after.ComesFrom origin := by
  induction vin generalizing view undos with
  | nil =>
      cases spends
      exact origins
  | cons txin rest ih =>
      obtain ⟨coins, undo, others, first, remaining, rfl⟩ := spendInputs_cons spends
      apply ih (origins.modifyCoins txin.prevout.hash _) remaining
      intro n out found unspent
      obtain ⟨_, -, -, rfl, -⟩ := CCoins.spend_eq_some first
      exact origins _ n out ((getElem?_erase CTxOut.isNull_null unspent).mp found).1 unspent

theorem ComesFrom.markSpent {tx : CTransaction} {after : CoinsMap} {undo : CTxUndo}
    (origins : view.ComesFrom origin) (marked : CoinsMap.markSpent tx view = some (after, undo)) :
    after.ComesFrom origin := by
  rcases markSpent_cases marked with ⟨-, spends⟩ | ⟨-, rfl⟩
  · exact origins.spendInputs spends
  · exact origins

/-- A transaction adds its own outputs. -/
theorem ComesFrom.addOutputs {tx : CTransaction} {nHeight : Int} (origins : view.ComesFrom origin)
    (own : ∀ n out, tx.vout[n]? = some out → origin tx.hash n out) :
    (CoinsMap.addOutputs tx nHeight view).ComesFrom origin := by
  apply origins.modifyCoins
  intro n out found unspent
  have kept := (getElem?_rdropWhile unspent).mp found
  rw [List.getElem?_map] at kept
  obtain ⟨original, here, same⟩ := Option.map_eq_some_iff.mp kept
  split at same
  · rw [← same] at unspent
    cases unspent
  · rw [← same]
    exact own n original here

end

/-- The unspent outputs are ones of these transactions. -/
def FromTxs (view : CoinsMap) (known : List CTransaction) : Prop :=
  ∀ (txid : Uint256) (n : Nat) (out : CTxOut), (view txid).vout[n]? = some out →
    out.isNull = false → ∃ tx ∈ known, tx.hash = txid ∧ tx.vout[n]? = some out

theorem fromTxs_iff {view : CoinsMap} {known : List CTransaction} :
    view.FromTxs known ↔ view.ComesFrom fun txid n out =>
      ∃ tx ∈ known, tx.hash = txid ∧ tx.vout[n]? = some out := Iff.rfl

theorem FromTxs.mono {view : CoinsMap} {known more : List CTransaction}
    (origins : view.FromTxs known) (inside : ∀ tx ∈ known, tx ∈ more) : view.FromTxs more := by
  refine (fromTxs_iff.mp origins).mono ?_
  rintro txid n out ⟨tx, member, source⟩
  exact ⟨tx, inside tx member, source⟩

theorem FromTxs.addOutputs {tx : CTransaction} {nHeight : Int} {view : CoinsMap}
    {known : List CTransaction} (origins : view.FromTxs known) :
    (CoinsMap.addOutputs tx nHeight view).FromTxs (known ++ [tx]) := by
  have more : view.FromTxs (known ++ [tx]) :=
    origins.mono fun _ member => List.mem_append_left _ member
  refine (fromTxs_iff.mp more).addOutputs ?_
  intro n out here
  exact ⟨tx, List.mem_append_right _ List.mem_cons_self, rfl, here⟩

end CoinsMap

namespace ConnectContext

variable (ctx : ConnectContext)

/-- The amounts of one round of the loop. -/
theorem connectTx_amounts {nHeight : Int} {done : List CTransaction} {tx : CTransaction}
    {state next : ConnectState} {undo : CTxUndo}
    (connects : ctx.connectTx nHeight done tx state = some (undo, next)) :
    ∃ amounts, ctx.txAmounts state.view tx = some amounts ∧
      next.nValueIn = state.nValueIn + amounts.nValueIn ∧
      next.nValueOut = state.nValueOut + amounts.nValueOut := by
  simp only [connectTx, Option.bind_eq_bind, Option.bind_eq_some_iff, Prod.exists,
    Option.pure_def, Option.some.injEq, Prod.mk.injEq] at connects
  obtain ⟨_, _, amounts, counted, _, _, _, _, _, rfl, rfl⟩ := connects
  exact ⟨amounts, counted, rfl, rfl⟩

/-- The outputs after a transaction is connected. -/
theorem fromTxs_connectTx {nHeight : Int} {done known : List CTransaction} {tx : CTransaction}
    {state next : ConnectState} {undo : CTxUndo}
    (connects : ctx.connectTx nHeight done tx state = some (undo, next))
    (origins : state.view.FromTxs known) : next.view.FromTxs (known ++ [tx]) := by
  obtain ⟨after, mints, marked, view, -, -⟩ := ctx.connectTx_cases connects
  rw [view]
  have spent : after.FromTxs known := (CoinsMap.fromTxs_iff.mp origins).markSpent marked
  exact spent.addOutputs

/-- **Connecting transactions** brings only their own outputs. -/
theorem fromTxs_connectTxs {nHeight : Int} {done known txs : List CTransaction}
    {state last : ConnectState} {undos : List CTxUndo}
    (connects : ctx.connectTxs nHeight done txs state = some (undos, last))
    (origins : state.view.FromTxs known) : last.view.FromTxs (known ++ txs) := by
  induction txs generalizing done state known undos with
  | nil =>
      cases connects
      rw [List.append_nil]
      exact origins
  | cons tx rest ih =>
      obtain ⟨undo, next, others, first, remaining, rfl⟩ := ctx.connectTxs_cons connects
      have later := ih remaining (ctx.fromTxs_connectTx first origins)
      rwa [List.append_assoc, List.singleton_append] at later

end ConnectContext

end GiantCore
