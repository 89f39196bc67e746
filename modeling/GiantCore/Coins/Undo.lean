import GiantCore.Coins.Connect

/-! # The undo law of the coin database

Disconnecting a block that was just connected, with the undo records that
connecting it made, restores every entry of the coin database up to one field:
the restore loop of `DisconnectBlock` does not copy `fCoinStake` back when an
undo record brings a transaction back to life, although `Spend` records it. The
relation `CoinsMap.Recovers` says exactly what an entry looks like after the
later transactions of the block are undone, and carries the induction from the
last input of the block to the first. It yields the condition under which the
block is undone cleanly (`disconnectBlock_restores_iff`): no coinstake loses its
last output in the block.
-/

namespace GiantCore

open CCoins

/-- Some unspent output of the coins of `txid` is not among the spent outpoints. -/
def CCoins.Keeps (coins : CCoins) (txid : Uint256) (spent : List COutPoint) : Prop :=
  ∃ n, coins.Unspent n ∧ ∀ out ∈ spent, out.hash = txid → out.n.toNat ≠ n

namespace CCoins

/-- An entry with an unspent output is kept where nothing is spent. -/
theorem keeps_nil {coins : CCoins} (txid : Uint256) (alive : coins.isPruned = false) :
    coins.Keeps txid [] := by
  obtain ⟨n, unspent⟩ := (not_isPruned_iff coins).mp alive
  exact ⟨n, unspent, by simp⟩

/-- A spent output of another transaction does not matter. -/
theorem keeps_cons_of_ne (coins : CCoins) {txid : Uint256} {out : COutPoint}
    (later : List COutPoint) (other : out.hash ≠ txid) :
    coins.Keeps txid (out :: later) ↔ coins.Keeps txid later := by
  simp only [Keeps, List.mem_cons, forall_eq_or_imp, other, false_imp_iff, true_and]

/-- Spending an output first, or looking for an output other than it. -/
theorem keeps_cons_spend {coins spent : CCoins} {out : COutPoint} {undo : CTxInUndo}
    (spends : coins.spend out.n.toNat = some (spent, undo)) (later : List COutPoint) :
    coins.Keeps out.hash (out :: later) ↔ spent.Keeps out.hash later := by
  simp only [Keeps, List.mem_cons, forall_eq_or_imp, true_imp_iff, unspent_spend spends]
  constructor
  · intro ⟨n, unspent, different, rest⟩
    exact ⟨n, ⟨unspent, Ne.symm different⟩, rest⟩
  · intro ⟨n, ⟨unspent, different⟩, rest⟩
    exact ⟨n, unspent, Ne.symm different, rest⟩

/-- An entry without unspent outputs is not kept. -/
theorem not_keeps_of_isPruned {coins : CCoins} (txid : Uint256) (spent : List COutPoint)
    (pruned : coins.isPruned = true) : ¬ coins.Keeps txid spent := by
  intro ⟨n, unspent, _⟩
  exact (isPruned_iff coins).mp pruned n unspent

end CCoins

namespace CoinsMap

/-- Every entry is in its representation. -/
def WellFormed (view : CoinsMap) : Prop := ∀ txid, (view txid).WellFormed

/-- The changed entry, cleaned up. -/
@[simp] theorem modifyCoins_self (view : CoinsMap) (txid : Uint256) (coins : CCoins) :
    view.modifyCoins txid coins txid = coins.cleanup := Function.update_self ..

/-- The other entries stay. -/
theorem modifyCoins_of_ne (view : CoinsMap) {txid other : Uint256} (coins : CCoins)
    (different : other ≠ txid) : view.modifyCoins txid coins other = view other :=
  Function.update_of_ne different ..

/-- A changed entry keeps the view well formed. -/
theorem WellFormed.modifyCoins {view : CoinsMap} (formed : view.WellFormed) (txid : Uint256)
    {coins : CCoins} (entry : coins.WellFormed) : (view.modifyCoins txid coins).WellFormed := by
  intro other
  by_cases same : other = txid
  · subst same
    rw [modifyCoins_self, entry.cleanup_eq]
    exact entry
  · rw [modifyCoins_of_ne view coins same]
    exact formed other

open Classical in
/-- **The entries after a partial undo.** `view` is the coin database at some
point of the block and `later` what the rest of the block spends. Undoing the
rest gives every entry back, except that a coinstake that loses all its outputs
comes back without its flag. -/
structure Recovers (view : CoinsMap) (later : List COutPoint) (current : CoinsMap) : Prop where
  pruned : ∀ txid, (view txid).isPruned = true → (current txid).isPruned = true
  entry : ∀ txid, (view txid).isPruned = false → current txid =
    { view txid with
      fCoinStake := (view txid).fCoinStake && decide ((view txid).Keeps txid later) }

/-- No entry at height zero loses its last output. Its undo record would not
show that it is a last one. -/
def ZeroSafe (view : CoinsMap) (later : List COutPoint) : Prop :=
  ∀ txid, (view txid).isPruned = false → (view txid).nHeight = 0 → (view txid).Keeps txid later

/-- Without undo records the view is already recovered. -/
theorem recovers_refl (view : CoinsMap) : Recovers view [] view where
  pruned _ pruned := pruned
  entry txid alive := by simp [keeps_nil txid alive]

/-- Where nothing is spent, no version is lost. -/
theorem zeroSafe_nil (view : CoinsMap) : ZeroSafe view [] :=
  fun txid alive _ => keeps_nil txid alive

/-! ## One input -/

section Input

variable {view : CoinsMap} {out : COutPoint} {coins : CCoins} {undo : CTxInUndo}

/-- The first spent output, and those after it. -/
theorem zeroSafe_cons_iff (formed : view.WellFormed) (later : List COutPoint)
    (spends : (view out.hash).spend out.n.toNat = some (coins, undo)) :
    ZeroSafe view (out :: later) ↔ ZeroSafe (view.modifyCoins out.hash coins) later ∧
      (coins.isPruned = false ∨ (view out.hash).nHeight ≠ 0) := by
  have formedCoins := (formed out.hash).spend spends
  have alive : (view out.hash).isPruned = false :=
    (not_isPruned_iff _).mpr ⟨_, unspent_of_spend spends⟩
  have height : coins.nHeight = (view out.hash).nHeight := by
    obtain ⟨-, -, -, rfl, -⟩ := spend_eq_some spends
    rfl
  constructor
  · intro safe
    refine ⟨fun txid aliveAfter zero => ?_, ?_⟩
    · by_cases same : txid = out.hash
      · subst same
        rw [modifyCoins_self, formedCoins.cleanup_eq] at aliveAfter zero ⊢
        exact (keeps_cons_spend spends later).mp (safe _ alive (height ▸ zero))
      · rw [modifyCoins_of_ne view coins same] at aliveAfter zero ⊢
        exact (keeps_cons_of_ne _ later (Ne.symm same)).mp (safe _ aliveAfter zero)
    · by_contra dying
      rw [not_or, Bool.not_eq_false, not_not] at dying
      have kept := (keeps_cons_spend spends later).mp (safe _ alive dying.2)
      exact not_keeps_of_isPruned _ _ dying.1 kept
  · intro ⟨safe, living⟩ txid aliveBefore zero
    by_cases same : txid = out.hash
    · subst same
      rw [keeps_cons_spend spends later]
      have remaining := living.resolve_right (not_not.mpr zero)
      have kept := safe out.hash
      rw [modifyCoins_self, formedCoins.cleanup_eq, height] at kept
      exact kept remaining zero
    · rw [keeps_cons_of_ne _ later (Ne.symm same)]
      have kept := safe txid
      rw [modifyCoins_of_ne view coins same] at kept
      exact kept aliveBefore zero

/-- Undoing the spend of one input, after the rest of the block is undone. -/
theorem recovers_apply (formed : view.WellFormed) {later : List COutPoint} {current : CoinsMap}
    (spends : (view out.hash).spend out.n.toNat = some (coins, undo))
    (recovers : Recovers (view.modifyCoins out.hash coins) later current) :
    ((undo.apply out.n.toNat (current out.hash)).2 = true ↔
      coins.isPruned = false ∨ (view out.hash).nHeight ≠ 0) ∧
    ((undo.apply out.n.toNat (current out.hash)).2 = true → Recovers view (out :: later)
      (current.modifyCoins out.hash (undo.apply out.n.toNat (current out.hash)).1)) := by
  classical
  have formedCoins := (formed out.hash).spend spends
  have alive : (view out.hash).isPruned = false :=
    (not_isPruned_iff _).mpr ⟨_, unspent_of_spend spends⟩
  -- entries of other transactions are as before, whatever happens to this one
  have others : ∀ entry : CCoins, entry.WellFormed → entry = { view out.hash with
        fCoinStake := (view out.hash).fCoinStake && decide (coins.Keeps out.hash later) } →
      Recovers view (out :: later) (current.modifyCoins out.hash entry) := by
    intro entry formedEntry entryEq
    constructor
    · intro txid pruned
      have different : txid ≠ out.hash := by
        rintro rfl
        rw [alive] at pruned
        cases pruned
      rw [modifyCoins_of_ne current entry different]
      apply recovers.pruned txid
      rwa [modifyCoins_of_ne view coins different]
    · intro txid living
      by_cases same : txid = out.hash
      · subst same
        rw [modifyCoins_self, formedEntry.cleanup_eq, entryEq]
        simp only [keeps_cons_spend spends later]
      · have before := recovers.entry txid
        rw [modifyCoins_of_ne view coins same] at before
        rw [modifyCoins_of_ne current entry same, before living]
        simp only [keeps_cons_of_ne _ later (Ne.symm same)]
  cases last : coins.isPruned with
  | false =>
      have entry := recovers.entry out.hash
      rw [modifyCoins_self, formedCoins.cleanup_eq] at entry
      rw [entry last, CTxInUndo.apply_of_remaining _ (formed out.hash) spends last]
      refine ⟨by simp, fun _ => others _ (formed out.hash) ?_⟩
      have flag : coins.fCoinStake = (view out.hash).fCoinStake := by
        obtain ⟨-, -, -, rfl, -⟩ := spend_eq_some spends
        rfl
      rw [flag]
  | true =>
      have pruned := recovers.pruned out.hash
      rw [modifyCoins_self, formedCoins.cleanup_eq] at pruned
      by_cases zero : (view out.hash).nHeight = 0
      · have mismatch :=
          CTxInUndo.apply_of_last_zero (formed out.hash) spends last (pruned last) zero
        simp [mismatch, zero]
      · rw [CTxInUndo.apply_of_last (formed out.hash) spends last (pruned last) zero]
        refine ⟨by simp [zero], fun _ => others _ (formed out.hash) ?_⟩
        simp [not_keeps_of_isPruned out.hash later last]

end Input

/-! ## All inputs of a transaction -/

/-- Inversion of one round of the spending loop. -/
theorem spendInputs_cons {txin : CTxIn} {rest : List CTxIn} {view after : CoinsMap}
    {undos : List CTxInUndo} (spends : spendInputs (txin :: rest) view = some (after, undos)) :
    ∃ coins undo others, (view txin.prevout.hash).spend txin.prevout.n.toNat = some (coins, undo) ∧
      spendInputs rest (view.modifyCoins txin.prevout.hash coins) = some (after, others) ∧
      undos = undo :: others := by
  simp only [spendInputs, Option.bind_eq_bind, Option.bind_eq_some_iff, Prod.exists,
    Option.pure_def, Option.some.injEq, Prod.mk.injEq] at spends
  obtain ⟨coins, undo, first, last, others, remaining, rfl, rfl⟩ := spends
  exact ⟨coins, undo, others, first, remaining, rfl⟩

/-- Spending inputs keeps the view well formed. -/
theorem WellFormed.spendInputs {vin : List CTxIn} {view after : CoinsMap}
    {undos : List CTxInUndo} (formed : view.WellFormed)
    (spends : CoinsMap.spendInputs vin view = some (after, undos)) : after.WellFormed := by
  induction vin generalizing view undos with
  | nil =>
      cases spends
      exact formed
  | cons txin rest ih =>
      obtain ⟨coins, undo, others, first, remaining, rfl⟩ := spendInputs_cons spends
      exact ih (formed.modifyCoins _ ((formed _).spend first)) remaining

/-- A pruned entry has nothing to spend and stays as it is. -/
theorem spendInputs_of_isPruned {vin : List CTxIn} {view after : CoinsMap}
    {undos : List CTxInUndo} {txid : Uint256} (pruned : (view txid).isPruned = true)
    (spends : spendInputs vin view = some (after, undos)) : after txid = view txid := by
  induction vin generalizing view undos with
  | nil =>
      cases spends
      rfl
  | cons txin rest ih =>
      obtain ⟨coins, undo, others, first, remaining, rfl⟩ := spendInputs_cons spends
      have different : txid ≠ txin.prevout.hash := by
        rintro rfl
        exact (isPruned_iff _).mp pruned _ (unspent_of_spend first)
      have untouched := modifyCoins_of_ne view coins different
      rw [ih (untouched ▸ pruned) remaining, untouched]

/-- Each input leaves an undo record. -/
theorem length_spendInputs {vin : List CTxIn} {view after : CoinsMap} {undos : List CTxInUndo}
    (spends : spendInputs vin view = some (after, undos)) : undos.length = vin.length := by
  induction vin generalizing view undos with
  | nil =>
      cases spends
      rfl
  | cons txin rest ih =>
      obtain ⟨coins, undo, others, first, remaining, rfl⟩ := spendInputs_cons spends
      simp only [List.length_cons, ih remaining]

/-- The inputs that are left are as safe as before. -/
theorem ZeroSafe.spendInputs {vin : List CTxIn} {view after : CoinsMap}
    {undos : List CTxInUndo} {later : List COutPoint} (formed : view.WellFormed)
    (spends : CoinsMap.spendInputs vin view = some (after, undos))
    (safe : ZeroSafe view (vin.map CTxIn.prevout ++ later)) : ZeroSafe after later := by
  induction vin generalizing view undos with
  | nil =>
      cases spends
      exact safe
  | cons txin rest ih =>
      obtain ⟨coins, undo, others, first, remaining, rfl⟩ := spendInputs_cons spends
      exact ih (formed.modifyCoins _ ((formed _).spend first)) remaining
        ((zeroSafe_cons_iff formed _ first).mp safe).1

end CoinsMap

open CoinsMap

namespace ConnectContext

/-- The restore loop never turns the flag back on. -/
theorem fClean_restoreInputs (records : List (CTxIn × CTxInUndo)) (state : DisconnectState)
    (clean : (restoreInputs records state).fClean = true) : state.fClean = true := by
  induction records with
  | nil => exact clean
  | cons record rest ih => exact ih (Bool.and_eq_true_iff.mp clean).1

/-- Restoring all inputs of a transaction. -/
theorem restoreInputs_spendInputs {vin : List CTxIn} {view after : CoinsMap}
    {undos : List CTxInUndo} {later : List COutPoint} {state : DisconnectState}
    (formed : view.WellFormed) (spends : spendInputs vin view = some (after, undos))
    (recovers : Recovers after later state.view) (clean : state.fClean = true)
    (safe : ZeroSafe after later) :
    ((restoreInputs (vin.zip undos) state).fClean = true ↔
      ZeroSafe view (vin.map CTxIn.prevout ++ later)) ∧
    ((restoreInputs (vin.zip undos) state).fClean = true →
      Recovers view (vin.map CTxIn.prevout ++ later)
        (restoreInputs (vin.zip undos) state).view) := by
  induction vin generalizing view undos with
  | nil =>
      cases spends
      exact ⟨⟨fun _ => safe, fun _ => clean⟩, fun _ => recovers⟩
  | cons txin rest ih =>
      obtain ⟨coins, undo, others, first, remaining, rfl⟩ := spendInputs_cons spends
      obtain ⟨restClean, restRecovers⟩ :=
        ih (formed.modifyCoins _ ((formed _).spend first)) remaining
      simp only [List.zip_cons_cons, restoreInputs, Bool.and_eq_true, List.map_cons,
        List.cons_append, zeroSafe_cons_iff formed _ first, ← restClean]
      constructor
      · exact and_congr_right fun cleanRest =>
          (recovers_apply formed first (restRecovers cleanRest)).1
      · intro ⟨cleanRest, expected⟩
        exact (recovers_apply formed first (restRecovers cleanRest)).2 expected

/-! ## The outputs of a transaction -/

/-- `GetValueOut` accepts a transaction only if no output looks spent. -/
theorem isNull_of_getValueOut {tx : CTransaction} {nValueOut : CAmount}
    (total : tx.getValueOut = some nValueOut) : ∀ out ∈ tx.vout, out.isNull = false := by
  have outputs : ∀ (vout : List CTxOut) (start : CAmount),
      vout.foldlM (fun (sum : CAmount) (out : CTxOut) =>
        if out.nValue < 0 then none
        else if CTransaction.maxInt64 < sum + out.nValue then none
        else some (sum + out.nValue)) start = some nValueOut →
      ∀ out ∈ vout, out.isNull = false := by
    intro vout
    induction vout with
    | nil => simp
    | cons first rest ih =>
        intro start total
        rw [List.foldlM_cons, Option.bind_eq_bind, Option.bind_eq_some_iff] at total
        obtain ⟨next, step, remaining⟩ := total
        have nonnegative : 0 ≤ first.nValue := by
          by_contra negative
          rw [if_pos (Int.not_le.mp negative)] at step
          cases step
        intro out member
        rcases List.mem_cons.mp member with rfl | inside
        · rw [CTxOut.isNull, beq_eq_false_iff_ne]
          intro null
          rw [null] at nonnegative
          exact absurd nonnegative (by decide)
        · exact ih next remaining out inside
  exact outputs tx.vout 0 total

/-- The created coins that come back without their coinstake flag are the ones
the comparison with the block reports. -/
theorem equals_recovered (tx : CTransaction) (nHeight : Int) (keeps : Prop) [Decidable keeps] :
    ({ fromTx tx nHeight with fCoinStake := (fromTx tx nHeight).fCoinStake && decide keeps } :
      CCoins).equals (fromTx tx nHeight) = true ↔
      ((fromTx tx nHeight).fCoinStake = true → (fromTx tx nHeight).isPruned = false → keeps) := by
  rw [equals_iff]
  have samePruned : ({ fromTx tx nHeight with
      fCoinStake := (fromTx tx nHeight).fCoinStake && decide keeps } : CCoins).isPruned =
        (fromTx tx nHeight).isPruned := rfl
  rw [samePruned, and_self]
  cases alive : (fromTx tx nHeight).isPruned with
  | true => simp
  | false =>
      cases flag : (fromTx tx nHeight).fCoinStake with
      | false =>
          simp only [Bool.false_and, Bool.false_eq_true, false_imp_iff, iff_true]
          right
          rw [← flag]
      | true =>
          simp only [Bool.true_and, Bool.false_eq_true, false_or, forall_const]
          by_cases kept : keeps
          · simp only [kept, decide_true, iff_true]
            rw [← flag]
          · simp only [kept, decide_false, iff_false]
            intro same
            have wrong := congrArg CCoins.fCoinStake same
            rw [flag] at wrong
            cases wrong

/-- Removing the outputs of a transaction, after the rest of the block is undone. -/
theorem recovers_removeOutputs {tx : CTransaction} {nHeight : Int} {view : CoinsMap}
    {later : List COutPoint} (state : DisconnectState)
    (values : ∀ out ∈ tx.vout, out.isNull = false) (fresh : (view tx.hash).isPruned = true)
    (recovers : Recovers (addOutputs tx nHeight view) later state.view)
    (clean : state.fClean = true) :
    ((removeOutputs nHeight tx state).fClean = true ↔
      ((fromTx tx nHeight).fCoinStake = true → (fromTx tx nHeight).isPruned = false →
        (fromTx tx nHeight).Keeps tx.hash later)) ∧
    Recovers view later (removeOutputs nHeight tx state).view := by
  classical
  have formed := wellFormed_fromTx nHeight values
  have created : addOutputs tx nHeight view tx.hash = fromTx tx nHeight := by
    rw [addOutputs, modifyCoins_self, formed.cleanup_eq]
  constructor
  · cases alive : (fromTx tx nHeight).isPruned with
    | true =>
        have pruned := recovers.pruned tx.hash
        rw [created] at pruned
        simp only [removeOutputs, clean, Bool.true_and, Bool.true_eq_false, false_imp_iff,
          implies_true, iff_true]
        rw [equals_iff]
        refine Or.inl ⟨?_, alive⟩
        split <;> exact isPruned_clearUnspendable (pruned alive)
    | false =>
        have entry := recovers.entry tx.hash
        rw [created] at entry
        simp only [removeOutputs, clean, Bool.true_and, entry alive,
          clearUnspendable_fromTx nHeight values, ite_self]
        refine (equals_recovered tx nHeight ((fromTx tx nHeight).Keeps tx.hash later)).trans ?_
        simp only [alive]
  · constructor
    · intro txid pruned
      by_cases same : txid = tx.hash
      · subst same
        simp only [removeOutputs, modifyCoins_self, wellFormed_clear.cleanup_eq, isPruned_clear]
      · simp only [removeOutputs, modifyCoins_of_ne _ _ same]
        apply recovers.pruned txid
        rwa [addOutputs, modifyCoins_of_ne _ _ same]
    · intro txid living
      have different : txid ≠ tx.hash := by
        rintro rfl
        rw [fresh] at living
        cases living
      have entry := recovers.entry txid
      rw [addOutputs, modifyCoins_of_ne _ _ different] at entry
      simp only [removeOutputs, modifyCoins_of_ne _ _ different]
      exact entry living

end ConnectContext

/-- New coins at a positive height neither break nor repair the rule for height
zero. -/
theorem CoinsMap.zeroSafe_addOutputs {tx : CTransaction} {nHeight : Int} {view : CoinsMap}
    {later : List COutPoint} (values : ∀ out ∈ tx.vout, out.isNull = false)
    (positive : nHeight ≠ 0) (fresh : (view tx.hash).isPruned = true) :
    ZeroSafe (addOutputs tx nHeight view) later ↔ ZeroSafe view later := by
  have formed := wellFormed_fromTx nHeight values
  constructor
  · intro safe txid alive zero
    have different : txid ≠ tx.hash := by
      rintro rfl
      rw [fresh] at alive
      cases alive
    have kept := safe txid
    rw [addOutputs, modifyCoins_of_ne _ _ different] at kept
    exact kept alive zero
  · intro safe txid alive zero
    by_cases same : txid = tx.hash
    · subst same
      rw [addOutputs, modifyCoins_self, formed.cleanup_eq] at zero
      exact (positive zero).elim
    · rw [addOutputs, modifyCoins_of_ne _ _ same] at alive zero ⊢
      exact safe txid alive zero

/-! ## A transaction -/

/-- The inversion of `markSpent`: what a transaction spends, in either case. -/
theorem CoinsMap.markSpent_cases {tx : CTransaction} {view after : CoinsMap} {undo : CTxUndo}
    (marked : markSpent tx view = some (after, undo)) :
    (tx.spendsInputs = true ∧ spendInputs tx.vin view = some (after, undo.vprevout)) ∨
      (tx.spendsInputs = false ∧ after = view) := by
  unfold markSpent at marked
  split at marked
  · rename_i spends
    simp only [Option.map_eq_some_iff, Prod.exists, Prod.mk.injEq] at marked
    obtain ⟨last, undos, done, rfl, rfl⟩ := marked
    exact Or.inl ⟨spends, done⟩
  · rename_i spends
    obtain ⟨rfl, rfl⟩ := Prod.mk.inj (Option.some.inj marked)
    exact Or.inr ⟨Bool.not_eq_true _ ▸ spends, rfl⟩

/-- Marking inputs as spent keeps the view well formed. -/
theorem CoinsMap.WellFormed.markSpent {tx : CTransaction} {view after : CoinsMap}
    {undo : CTxUndo} (formed : view.WellFormed)
    (marked : CoinsMap.markSpent tx view = some (after, undo)) : after.WellFormed := by
  rcases markSpent_cases marked with ⟨-, done⟩ | ⟨-, rfl⟩
  · exact formed.spendInputs done
  · exact formed

/-- Marking the inputs of a transaction leaves the others safe. -/
theorem CoinsMap.ZeroSafe.markSpent {tx : CTransaction} {view after : CoinsMap}
    {undo : CTxUndo} {later : List COutPoint} (formed : view.WellFormed)
    (marked : CoinsMap.markSpent tx view = some (after, undo))
    (safe : ZeroSafe view (tx.spent ++ later)) : ZeroSafe after later := by
  rcases markSpent_cases marked with ⟨spends, done⟩ | ⟨spends, rfl⟩
  · rw [CTransaction.spent, if_pos spends] at safe
    exact safe.spendInputs formed done
  · rwa [CTransaction.spent, if_neg (by simp [spends]), List.nil_append] at safe

namespace ConnectContext

variable (ctx : ConnectContext)

/-- Disconnecting never turns the flag back on. -/
theorem fClean_disconnectTx {nHeight : Int} {tx : CTransaction} {txundo : Option CTxUndo}
    {state result : DisconnectState}
    (disconnects : ctx.disconnectTx nHeight tx txundo state = some result)
    (clean : result.fClean = true) : state.fClean = true := by
  have removed : ∀ db, (removeOutputs nHeight tx { state with zerocoinDB := db }).fClean = true →
      state.fClean = true := fun db stillClean => (Bool.and_eq_true_iff.mp stillClean).1
  simp only [disconnectTx, Option.bind_eq_bind, Option.bind_eq_some_iff] at disconnects
  obtain ⟨db, -, disconnects⟩ := disconnects
  split at disconnects
  · simp only [Option.bind_eq_some_iff] at disconnects
    obtain ⟨undo, -, disconnects⟩ := disconnects
    split at disconnects
    · cases disconnects
    · cases disconnects
      exact removed db (fClean_restoreInputs _ _ clean)
  · cases disconnects
    exact removed db clean

/-- **Undoing a transaction.** The flag stays on exactly when the transaction's
own coins recover and no entry at height zero is lost. -/
theorem disconnectTx_markSpent {nHeight : Int} {tx : CTransaction} {txundo : Option CTxUndo}
    {undo : CTxUndo} {mints : List Nat} {view after : CoinsMap} {later : List COutPoint}
    {state : DisconnectState} (formed : view.WellFormed) (positive : nHeight ≠ 0)
    (marked : CoinsMap.markSpent tx view = some (after, undo))
    (decoded : ctx.publicCoins tx = some mints)
    (values : ∀ out ∈ tx.vout, out.isNull = false) (fresh : (after tx.hash).isPruned = true)
    (record : tx.spendsInputs = true → txundo = some undo)
    (undone : state.fClean = true → Recovers (addOutputs tx nHeight after) later state.view ∧
      ZeroSafe (addOutputs tx nHeight after) later) :
    ∃ result, ctx.disconnectTx nHeight tx txundo state = some result ∧
      (state.fClean = true →
        (result.fClean = true ↔
          ((fromTx tx nHeight).fCoinStake = true → (fromTx tx nHeight).isPruned = false →
            (fromTx tx nHeight).Keeps tx.hash later) ∧ ZeroSafe view (tx.spent ++ later)) ∧
        (result.fClean = true → Recovers view (tx.spent ++ later) result.view)) := by
  have safe (clean : state.fClean = true) : ZeroSafe after later :=
    (zeroSafe_addOutputs values positive fresh).mp (undone clean).2
  obtain ⟨db, erased⟩ : ∃ db, ctx.eraseZerocoins tx state.zerocoinDB = some db := by
    simp [eraseZerocoins, decoded]
  have removed (clean : state.fClean = true) :=
    recovers_removeOutputs { state with zerocoinDB := db } values fresh (undone clean).1 clean
  rcases markSpent_cases marked with ⟨spends, done⟩ | ⟨spends, rfl⟩
  · refine ⟨restoreInputs (tx.vin.zip undo.vprevout)
      (removeOutputs nHeight tx { state with zerocoinDB := db }), ?_, fun clean => ?_⟩
    · simp [disconnectTx, erased, spends, record spends, length_spendInputs done]
    · rw [CTransaction.spent, if_pos spends]
      cases stillClean : (removeOutputs nHeight tx { state with zerocoinDB := db }).fClean with
      | false =>
          have off : (restoreInputs (tx.vin.zip undo.vprevout)
              (removeOutputs nHeight tx { state with zerocoinDB := db })).fClean = false := by
            by_contra on
            have before := fClean_restoreInputs _ _ (Bool.not_eq_false _ ▸ on)
            rw [stillClean] at before
            cases before
          rw [off]
          have lost := (removed clean).1.not.mp (by simp [stillClean])
          exact ⟨⟨nofun, fun both => (lost both.1).elim⟩, nofun⟩
      | true =>
          have restored :=
            restoreInputs_spendInputs formed done (removed clean).2 stillClean (safe clean)
          refine ⟨?_, restored.2⟩
          rw [restored.1]
          exact ⟨fun zero => ⟨(removed clean).1.mp stillClean, zero⟩, fun both => both.2⟩
  · refine ⟨removeOutputs nHeight tx { state with zerocoinDB := db }, ?_, fun clean => ?_⟩
    · simp [disconnectTx, erased, spends]
    · rw [CTransaction.spent, if_neg (by simp [spends]), List.nil_append]
      refine ⟨(removed clean).1.trans ?_, fun _ => (removed clean).2⟩
      exact ⟨fun kept => ⟨kept, safe clean⟩, fun both => both.1⟩

/-- What one round of the loop of `ConnectBlock` does to the coins. -/
theorem connectTx_cases {nHeight : Int} {done : List CTransaction} {tx : CTransaction}
    {state next : ConnectState} {undo : CTxUndo}
    (connects : ctx.connectTx nHeight done tx state = some (undo, next)) :
    ∃ after mints, CoinsMap.markSpent tx state.view = some (after, undo) ∧
      next.view = addOutputs tx nHeight after ∧ ctx.publicCoins tx = some mints ∧
      ∀ out ∈ tx.vout, out.isNull = false := by
  simp only [connectTx, Option.bind_eq_bind, Option.bind_eq_some_iff, updateCoins,
    Option.map_eq_some_iff, Prod.exists, Option.pure_def, Option.some.injEq, Prod.mk.injEq]
    at connects
  obtain ⟨-, -, amounts, total, mints, decoded, last, record, ⟨after, marks, marked, rfl, rfl⟩,
    rfl, rfl⟩ := connects
  refine ⟨after, mints, marked, rfl, decoded, ?_⟩
  simp only [txAmounts, Option.bind_eq_bind, Option.bind_eq_some_iff] at total
  obtain ⟨nValueOut, sum, -⟩ := total
  exact isNull_of_getValueOut sum

end ConnectContext

/-! ## A block -/

/-- No transaction overwrites an entry that still has unspent outputs. -/
def OverwritesNone (nHeight : Int) : List CTransaction → CoinsMap → Prop
  | [], _ => True
  | tx :: rest, view => ∀ after undo, markSpent tx view = some (after, undo) →
      (after tx.hash).isPruned = true ∧ OverwritesNone nHeight rest (addOutputs tx nHeight after)

instance OverwritesNone.decidable (nHeight : Int) :
    ∀ (txs : List CTransaction) (view : CoinsMap), Decidable (OverwritesNone nHeight txs view)
  | [], _ => isTrue trivial
  | tx :: rest, view =>
      match marked : markSpent tx view with
      | none => isTrue fun after undo some => by
          rw [marked] at some
          cases some
      | some (after, undo) =>
          have : Decidable (OverwritesNone nHeight rest (addOutputs tx nHeight after)) :=
            OverwritesNone.decidable nHeight rest _
          decidable_of_iff ((after tx.hash).isPruned = true ∧
              OverwritesNone nHeight rest (addOutputs tx nHeight after)) <| by
            simp [OverwritesNone, marked]

/-- Every coinstake of the list has an output that the list does not spend. -/
def CreatedKeep (nHeight : Int) : List CTransaction → Prop
  | [] => True
  | tx :: rest =>
      ((fromTx tx nHeight).fCoinStake = true → (fromTx tx nHeight).isPruned = false →
        (fromTx tx nHeight).Keeps tx.hash (rest.flatMap CTransaction.spent)) ∧
      CreatedKeep nHeight rest

/-- The state of `DisconnectBlock` when it has undone a tail of the block that
was connected on top of `view`. -/
structure Undone (nHeight : Int) (txs : List CTransaction) (view : CoinsMap)
    (state : DisconnectState) : Prop where
  clean_iff : state.fClean = true ↔
    CreatedKeep nHeight txs ∧ ZeroSafe view (txs.flatMap CTransaction.spent)
  recovers : state.fClean = true → Recovers view (txs.flatMap CTransaction.spent) state.view

/-- There is nothing to undo without transactions. -/
theorem undone_nil (nHeight : Int) (view : CoinsMap) (zerocoinDB : ZerocoinDB) :
    Undone nHeight [] view { view, zerocoinDB } where
  clean_iff := ⟨fun _ => ⟨trivial, zeroSafe_nil view⟩, fun _ => rfl⟩
  recovers _ := recovers_refl view

namespace ConnectContext

variable (ctx : ConnectContext)

/-- **One round of the loop of `DisconnectBlock`** takes back the transaction
that the same round of `ConnectBlock` applied. -/
theorem disconnectTx_undone {nHeight : Int} {done rest : List CTransaction} {tx : CTransaction}
    {state next : ConnectState} {undo : CTxUndo} (txundo : Option CTxUndo)
    {current : DisconnectState} (formed : state.view.WellFormed) (positive : nHeight ≠ 0)
    (connects : ctx.connectTx nHeight done tx state = some (undo, next))
    (fresh : OverwritesNone nHeight (tx :: rest) state.view)
    (record : tx.spendsInputs = true → txundo = some undo)
    (undone : Undone nHeight rest next.view current) :
    ∃ result, ctx.disconnectTx nHeight tx txundo current = some result ∧
      Undone nHeight (tx :: rest) state.view result := by
  obtain ⟨after, mints, marked, created, decoded, values⟩ := ctx.connectTx_cases connects
  rw [created] at undone
  have unused := (fresh after undo marked).1
  obtain ⟨result, disconnects, taken⟩ :=
    ctx.disconnectTx_markSpent formed positive marked decoded values unused record
      fun clean => ⟨undone.recovers clean, (undone.clean_iff.mp clean).2⟩
  refine ⟨result, disconnects, ?_⟩
  cases clean : current.fClean with
  | true =>
      have kept := (undone.clean_iff.mp clean).1
      obtain ⟨cleanIff, recovers⟩ := taken clean
      refine ⟨cleanIff.trans ?_, recovers⟩
      rw [CreatedKeep, List.flatMap_cons, and_iff_left kept]
  | false =>
      have off : ¬ result.fClean = true := by
        intro on
        rw [ctx.fClean_disconnectTx disconnects on] at clean
        cases clean
      refine ⟨⟨fun on => (off on).elim, ?_⟩, fun on => (off on).elim⟩
      intro ⟨⟨_, kept⟩, safe⟩
      -- the rest of the block would have been undone cleanly
      have safeAfter : ZeroSafe after (rest.flatMap CTransaction.spent) :=
        ZeroSafe.markSpent formed marked safe
      have safeRest := (zeroSafe_addOutputs values positive unused).mpr safeAfter
      rw [undone.clean_iff.mpr ⟨kept, safeRest⟩] at clean
      cases clean

/-- Connecting a transaction keeps the view well formed. -/
theorem WellFormed.connectTx {nHeight : Int} {done : List CTransaction} {tx : CTransaction}
    {state next : ConnectState} {undo : CTxUndo} (formed : state.view.WellFormed)
    (connects : ctx.connectTx nHeight done tx state = some (undo, next)) :
    next.view.WellFormed := by
  obtain ⟨after, mints, marked, created, -, values⟩ := ctx.connectTx_cases connects
  rw [created]
  exact (formed.markSpent marked).modifyCoins _ (wellFormed_fromTx nHeight values)

/-- The later transactions overwrite nothing either. -/
theorem OverwritesNone.connectTx {nHeight : Int} {done rest : List CTransaction}
    {tx : CTransaction} {state next : ConnectState} {undo : CTxUndo}
    (fresh : OverwritesNone nHeight (tx :: rest) state.view)
    (connects : ctx.connectTx nHeight done tx state = some (undo, next)) :
    OverwritesNone nHeight rest next.view := by
  obtain ⟨after, mints, marked, created, -, -⟩ := ctx.connectTx_cases connects
  rw [created]
  exact (fresh after undo marked).2

/-- Inversion of the loop of `ConnectBlock`. -/
theorem connectTxs_cons {nHeight : Int} {done rest : List CTransaction} {tx : CTransaction}
    {state last : ConnectState} {undos : List CTxUndo}
    (connects : ctx.connectTxs nHeight done (tx :: rest) state = some (undos, last)) :
    ∃ undo next others, ctx.connectTx nHeight done tx state = some (undo, next) ∧
      ctx.connectTxs nHeight (done ++ [tx]) rest next = some (others, last) ∧
      undos = undo :: others := by
  simp only [connectTxs, Option.bind_eq_bind, Option.bind_eq_some_iff, Prod.exists,
    Option.pure_def, Option.some.injEq, Prod.mk.injEq] at connects
  obtain ⟨undo, next, first, others, final, remaining, rfl, rfl⟩ := connects
  exact ⟨undo, next, others, first, remaining, rfl⟩

/-- Each transaction leaves an undo record. -/
theorem length_connectTxs {nHeight : Int} {done txs : List CTransaction}
    {state last : ConnectState} {undos : List CTxUndo}
    (connects : ctx.connectTxs nHeight done txs state = some (undos, last)) :
    undos.length = txs.length := by
  induction txs generalizing done state undos with
  | nil =>
      cases connects
      rfl
  | cons tx rest ih =>
      obtain ⟨undo, next, others, -, remaining, rfl⟩ := ctx.connectTxs_cons connects
      simp only [List.length_cons, ih remaining]

/-- **The loop of `DisconnectBlock`** takes back the loop of `ConnectBlock`. -/
theorem disconnectTxs_undone {nHeight : Int} {done txs : List CTransaction}
    {state last : ConnectState} {undos : List CTxUndo} (zerocoinDB : ZerocoinDB)
    (formed : state.view.WellFormed) (positive : nHeight ≠ 0)
    (connects : ctx.connectTxs nHeight done txs state = some (undos, last))
    (fresh : OverwritesNone nHeight txs state.view) :
    ∃ result, ctx.disconnectTxs nHeight (txs.zip (undos.map some))
        { view := last.view, zerocoinDB } = some result ∧
      Undone nHeight txs state.view result := by
  induction txs generalizing done state undos with
  | nil =>
      cases connects
      exact ⟨_, rfl, undone_nil nHeight last.view zerocoinDB⟩
  | cons tx rest ih =>
      obtain ⟨undo, next, others, first, remaining, rfl⟩ := ctx.connectTxs_cons connects
      obtain ⟨current, disconnects, undone⟩ :=
        ih (WellFormed.connectTx ctx formed first) remaining
          (OverwritesNone.connectTx ctx fresh first)
      obtain ⟨result, taken, done⟩ :=
        ctx.disconnectTx_undone (some undo) formed positive first fresh (fun _ => rfl) undone
      refine ⟨result, ?_, done⟩
      simp only [List.map_cons, List.zip_cons_cons, disconnectTxs, Option.bind_eq_bind,
        disconnects, Option.bind_some, taken]

end ConnectContext

/-- The outpoints a block spends. -/
def CBlock.spent (block : CBlock) : List COutPoint := block.vtx.flatMap CTransaction.spent

/-- A coin database that carries the invariant of its entries. -/
structure UtxoView where
  coins : CoinsMap
  wellFormed : coins.WellFormed

/-- Disconnecting a block from the coins it left succeeds cleanly and gives every
entry back. -/
def UndoRestores (ctx : ConnectContext) (block : CBlock) (nHeight : Int) (view : UtxoView)
    (connected : Connected) : Prop :=
  ∃ result, disconnectBlock ctx block nHeight connected.vtxundo connected.state.view
      connected.zerocoinDB = some result ∧ result.fClean = true ∧
    ∀ txid, (result.view txid).equals (view.coins txid) = true

/-- No coinstake entry, and no entry at height zero, loses its last output. -/
def EntriesKeep (view : CoinsMap) (spent : List COutPoint) : Prop :=
  ∀ txid, (view txid).isPruned = false →
    ((view txid).fCoinStake = true ∨ (view txid).nHeight = 0) → (view txid).Keeps txid spent

/-- After a clean undo the entries are equal exactly when no coinstake lost its
last output. -/
theorem CoinsMap.Recovers.equals_iff {view current : CoinsMap} {later : List COutPoint}
    (recovers : Recovers view later current) :
    (∀ txid, (current txid).equals (view txid) = true) ↔
      ∀ txid, (view txid).isPruned = false → (view txid).fCoinStake = true →
        (view txid).Keeps txid later := by
  classical
  constructor
  · intro equal txid alive flag
    rcases (CCoins.equals_iff _ _).mp (equal txid) with ⟨-, pruned⟩ | same
    · rw [alive] at pruned
      cases pruned
    · have kept := congrArg CCoins.fCoinStake (recovers.entry txid alive)
      rw [same] at kept
      simpa only [flag, Bool.true_and, true_eq_decide_iff] using kept
  · intro kept txid
    rw [CCoins.equals_iff]
    cases alive : (view txid).isPruned with
    | true => exact Or.inl ⟨recovers.pruned txid alive, rfl⟩
    | false =>
        right
        rw [recovers.entry txid alive]
        cases flag : (view txid).fCoinStake with
        | false =>
            rw [Bool.false_and, ← flag]
        | true =>
            rw [decide_eq_true (kept txid alive flag), Bool.and_self, ← flag]

/-- What `ConnectBlock` does to a block: it is a coinbase and further transactions,
and the records of the latter are kept. -/
theorem connectBlock_cases {ctx : ConnectContext} {block : CBlock} {nHeight : Int}
    {view : CoinsMap} {zerocoinDB : ZerocoinDB} {connected : Connected}
    (connects : connectBlock ctx block nHeight view zerocoinDB = some connected) :
    ∃ first rest undo next, block.vtx = first :: rest ∧ first.spendsInputs = false ∧
      ctx.connectTx nHeight [] first { view } = some (undo, next) ∧
      ctx.connectTxs nHeight [first] rest next = some (connected.vtxundo, connected.state) := by
  simp only [connectBlock, Option.bind_eq_bind, Option.bind_eq_some_iff, Option.guard_eq_some',
    Prod.exists, Option.pure_def, Option.some.injEq] at connects
  obtain ⟨-, shape, undos, last, connects, rfl⟩ := connects
  unfold CBlock.hasOneCoinBase at shape
  split at shape
  · cases shape
  · rename_i first rest split
    rw [split] at connects
    obtain ⟨undo, next, others, head, remaining, rfl⟩ := ctx.connectTxs_cons connects
    refine ⟨first, rest, undo, next, split, ?_, head, remaining⟩
    simp [CTransaction.spendsInputs, (Bool.and_eq_true_iff.mp shape).1]

/-- `DisconnectBlock` takes back what `ConnectBlock` did. -/
theorem disconnectBlock_undone {ctx : ConnectContext} {block : CBlock} {nHeight : Int}
    {view : CoinsMap} {zerocoinDB : ZerocoinDB} {connected : Connected}
    (formed : view.WellFormed) (positive : nHeight ≠ 0)
    (connects : connectBlock ctx block nHeight view zerocoinDB = some connected)
    (fresh : OverwritesNone nHeight block.vtx view) :
    ∃ result, disconnectBlock ctx block nHeight connected.vtxundo connected.state.view
        connected.zerocoinDB = some result ∧ Undone nHeight block.vtx view result := by
  obtain ⟨first, rest, undo, next, split, coinBase, head, remaining⟩ := connectBlock_cases connects
  rw [split] at fresh ⊢
  obtain ⟨current, disconnects, undone⟩ :=
    ctx.disconnectTxs_undone connected.zerocoinDB
      (ConnectContext.WellFormed.connectTx ctx formed head) positive remaining
      (ConnectContext.OverwritesNone.connectTx ctx fresh head)
  -- the coinbase spends nothing, so its missing record is not asked for
  obtain ⟨result, taken, done⟩ :=
    ctx.disconnectTx_undone none formed positive head fresh (by simp [coinBase]) undone
  refine ⟨result, ?_, done⟩
  simp only [disconnectBlock, split, List.length_cons, ctx.length_connectTxs remaining, ne_eq,
    not_true_eq_false, ↓reduceIte, List.zip_cons_cons, ConnectContext.disconnectTxs,
    Option.bind_eq_bind, disconnects, Option.bind_some, taken]

/-- **The undo law.** A block that was connected at a positive height without
overwriting unspent entries is undone exactly, and cleanly, if and only if it
spends the last output of no coinstake (and of no entry at height zero), be it
an entry of the coin database or a transaction of the block. -/
theorem disconnectBlock_restores_iff (ctx : ConnectContext) (block : CBlock) (nHeight : Int)
    (view : UtxoView) (zerocoinDB : ZerocoinDB) (connected : Connected) (positive : 1 ≤ nHeight)
    (connects : connectBlock ctx block nHeight view.coins zerocoinDB = some connected)
    (fresh : OverwritesNone nHeight block.vtx view.coins) :
    UndoRestores ctx block nHeight view connected ↔
      EntriesKeep view.coins block.spent ∧ CreatedKeep nHeight block.vtx := by
  obtain ⟨result, disconnects, undone⟩ :=
    disconnectBlock_undone view.wellFormed (by omega) connects fresh
  constructor
  · intro ⟨final, restored, clean, equal⟩
    rw [disconnects, Option.some.injEq] at restored
    subst restored
    obtain ⟨created, safe⟩ := undone.clean_iff.mp clean
    have staked := (undone.recovers clean).equals_iff.mp equal
    refine ⟨?_, created⟩
    rintro txid alive (flag | zero)
    · exact staked txid alive flag
    · exact safe txid alive zero
  · intro ⟨entries, created⟩
    have clean := undone.clean_iff.mpr
      ⟨created, fun txid alive zero => entries txid alive (Or.inr zero)⟩
    refine ⟨result, disconnects, clean, ?_⟩
    rw [(undone.recovers clean).equals_iff]
    exact fun txid alive flag => entries txid alive (Or.inl flag)

/-! ## A block that is not undone -/

/-- A context without zerocoins whose further tests all pass. -/
def ConnectContext.permissive : ConnectContext where
  txOutToPublicCoin _ := none
  txInToZerocoinSpend _ := ⟨0, 0⟩
  admits _ _ _ := true

/-- A coinstake, whose first output is empty by its shape, and an ordinary
transaction. -/
def stakedView : UtxoView where
  coins txid :=
    if txid = 5 then
      { fCoinStake := true, vout := [⟨0, [], -10⟩, ⟨10 * COIN, [0x51], -10⟩], nHeight := 80000,
        nVersion := 1 }
    else if txid = 7 then
      { vout := [⟨20 * COIN, [0x51], -10⟩], nHeight := 80001, nVersion := 1 }
    else CCoins.clear
  wellFormed txid := by
    beta_reduce
    split
    · exact ⟨by decide, by simp [CTxOut.isNull, COIN]⟩
    · split
      · exact ⟨by decide, by simp [CTxOut.isNull, COIN]⟩
      · exact wellFormed_clear

/-- A proof-of-stake block with a transaction that spends both outputs of the
coinstake. -/
def sweepingBlock : CBlock where
  hash := 1
  hashPrevBlock := 0
  hashMerkleRoot := 0
  nTime := 0
  nBits := 0
  vtx := [
    { hash := 100, vin := [{ prevout := COutPoint.null }], vout := [⟨0, [], -10⟩] },
    { hash := 101, vin := [{ prevout := ⟨7, 0⟩ }],
      vout := [⟨0, [], -10⟩, ⟨20 * COIN, [0x51], -10⟩] },
    { hash := 102, vin := [{ prevout := ⟨5, 0⟩, scriptSig := [0x51] }, { prevout := ⟨5, 1⟩ }],
      vout := [⟨10 * COIN, [0x51], -10⟩] }]

/-- The block of the example connects. -/
theorem sweepingBlock_connects :
    (connectBlock .permissive sweepingBlock 90000 stakedView.coins {}).isSome = true := by
  decide

/-- The coinstake comes back without its flag. -/
theorem sweepingBlock_not_restored :
    ¬ ∀ (ctx : ConnectContext) (block : CBlock) (nHeight : Int) (view : UtxoView)
      (zerocoinDB : ZerocoinDB) (connected : Connected), 1 ≤ nHeight →
      connectBlock ctx block nHeight view.coins zerocoinDB = some connected →
      OverwritesNone nHeight block.vtx view.coins →
      UndoRestores ctx block nHeight view connected := by
  intro restores
  obtain ⟨result, disconnects, -, equal⟩ :=
    restores .permissive sweepingBlock 90000 stakedView {} _ (by decide)
      (Option.some_get sweepingBlock_connects).symm (by decide)
  have lost : ((disconnectBlock .permissive sweepingBlock 90000
      ((connectBlock .permissive sweepingBlock 90000 stakedView.coins {}).get
        sweepingBlock_connects).vtxundo
      ((connectBlock .permissive sweepingBlock 90000 stakedView.coins {}).get
        sweepingBlock_connects).state.view
      ((connectBlock .permissive sweepingBlock 90000 stakedView.coins {}).get
        sweepingBlock_connects).zerocoinDB).all
      fun result => !(result.view 5).equals (stakedView.coins 5)) = true := by
    decide
  rw [disconnects, Option.all_some, equal 5] at lost
  cases lost

/-- The condition of the theorem on the block of the example. -/
theorem disconnectBlock_restores_iff_sweepingBlock :
    ∃ connected, connectBlock .permissive sweepingBlock 90000 stakedView.coins {} =
        some connected ∧
      (UndoRestores .permissive sweepingBlock 90000 stakedView connected ↔
        EntriesKeep stakedView.coins sweepingBlock.spent ∧
          CreatedKeep 90000 sweepingBlock.vtx) := by
  have connects := (Option.some_get sweepingBlock_connects).symm
  exact ⟨_, connects, disconnectBlock_restores_iff .permissive sweepingBlock 90000 stakedView {} _
    (by decide) connects (by decide)⟩

end GiantCore
