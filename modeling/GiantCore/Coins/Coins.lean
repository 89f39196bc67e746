import GiantCore.Foundation.TrimmedArray
import GiantCore.Primitives.Transaction

/-! # The coins of one transaction

`CCoins` of `coins.h`, with `Spend` of `coins.cpp` and the undo record of
`undo.h`. Spent outputs are null and the null outputs at the end of the array
are dropped; `CCoins.WellFormed` is that representation invariant, and every
operation of this module keeps it. Undoing a spend (`CTxInUndo.apply`) is the
body of the restore loop of `DisconnectBlock`.
-/

namespace GiantCore

/-- The unspent outputs of one transaction and its metadata. -/
structure CCoins where
  fCoinBase : Bool := false
  fCoinStake : Bool := false
  vout : List CTxOut := []
  nHeight : Int := 0
  nVersion : Int := 0
  deriving DecidableEq, Repr

/-- The undo record of one input: the output it spent and, when that was the
last output of its transaction, the metadata. The source stores the height as
an `unsigned int`; the conversions from and to `int` cancel. -/
structure CTxInUndo where
  txout : CTxOut
  fCoinBase : Bool := false
  fCoinStake : Bool := false
  nHeight : Int := 0
  nVersion : Int := 0
  deriving DecidableEq, Repr

namespace CCoins

/-- Drop the null outputs at the end. -/
def cleanup (coins : CCoins) : CCoins :=
  { coins with vout := coins.vout.rdropWhile CTxOut.isNull }

/-- Null the provably unspendable outputs. -/
def clearUnspendable (coins : CCoins) : CCoins :=
  cleanup { coins with vout := coins.vout.map fun out =>
    if CScript.isUnspendable out.scriptPubKey then CTxOut.null else out }

/-- The coins a transaction creates at a height. -/
def fromTx (tx : CTransaction) (nHeightIn : Int) : CCoins :=
  clearUnspendable
    { fCoinBase := tx.isCoinBase
      fCoinStake := tx.isCoinStake
      vout := tx.vout
      nHeight := nHeightIn
      nVersion := tx.nVersion }

/-- `Clear`, and the empty constructor. -/
def clear : CCoins := {}

/-- Every output is spent. -/
def isPruned (coins : CCoins) : Bool := coins.vout.all CTxOut.isNull

/-- An output that is there, unspent and no zerocoin mint. -/
def isAvailable (coins : CCoins) (nPos : Nat) : Bool :=
  match coins.vout[nPos]? with
  | some out => !out.isNull && !out.isZerocoinMint
  | none => false

/-- `operator==`: pruned coins are all equal. -/
def equals (a b : CCoins) : Bool :=
  if a.isPruned && b.isPruned then true
  else a.fCoinBase == b.fCoinBase && a.fCoinStake == b.fCoinStake && a.nHeight == b.nHeight &&
    a.nVersion == b.nVersion && a.vout == b.vout

/-- Spend one output and make its undo record, or fail on an output that is
out of range or already spent. -/
def spend (coins : CCoins) (n : Nat) : Option (CCoins × CTxInUndo) :=
  match coins.vout[n]? with
  | none => none
  | some out =>
      if out.isNull then none
      else
        let spent := cleanup { coins with vout := coins.vout.set n CTxOut.null }
        if spent.vout.length = 0 then
          some (spent,
            { txout := out
              fCoinBase := coins.fCoinBase
              fCoinStake := coins.fCoinStake
              nHeight := coins.nHeight
              nVersion := coins.nVersion })
        else some (spent, { txout := out })

end CCoins

/-- `vector::resize` to at least `size` elements; the new ones are null. -/
def resizeOutputs (vout : List CTxOut) (size : Nat) : List CTxOut :=
  vout ++ List.replicate (size - vout.length) CTxOut.null

/-- One round of the restore loop of `DisconnectBlock`: put the output back,
with the metadata when the record has a height, and report whether the coins
were in the state the record expects. The source leaves `fCoinStake` as
`Clear` set it. -/
def CTxInUndo.apply (undo : CTxInUndo) (n : Nat) (coins : CCoins) : CCoins × Bool :=
  let (base, expected) :=
    if undo.nHeight ≠ 0 then
      ({ CCoins.clear with
          fCoinBase := undo.fCoinBase
          nHeight := undo.nHeight
          nVersion := undo.nVersion }, coins.isPruned)
    else (coins, !coins.isPruned)
  let vout := if base.vout.length < n + 1 then resizeOutputs base.vout (n + 1) else base.vout
  ({ base with vout := vout.set n undo.txout }, expected && !base.isAvailable n)

namespace CCoins

open Foundation.TrimmedArray

/-- An unspent output at an index. -/
def Unspent (coins : CCoins) (n : Nat) : Prop :=
  ∃ out, coins.vout[n]? = some out ∧ out.isNull = false

/-- **The representation of coins.** Spent outputs are cleared entirely, and
the last output is unspent. -/
def WellFormed (coins : CCoins) : Prop := Trimmed CTxOut.isNull CTxOut.null coins.vout

@[simp] theorem isPruned_clear : clear.isPruned = true := rfl

theorem wellFormed_clear : clear.WellFormed := ⟨by simp [clear], by simp [clear]⟩

theorem isPruned_iff (coins : CCoins) : coins.isPruned = true ↔ ∀ n, ¬ coins.Unspent n := by
  simp only [isPruned, List.all_eq_true]
  constructor
  · intro spent n ⟨out, found, unspent⟩
    rw [spent out (List.mem_of_getElem? found)] at unspent
    cases unspent
  · intro none out member
    obtain ⟨n, found⟩ := List.mem_iff_getElem?.mp member
    by_contra unspent
    exact none n ⟨out, found, Bool.not_eq_true _ ▸ unspent⟩

theorem not_isPruned_iff (coins : CCoins) : coins.isPruned = false ↔ ∃ n, coins.Unspent n := by
  rw [← Bool.not_eq_true, isPruned_iff, not_forall_not]

/-- Coins in their representation are pruned exactly when they are empty. -/
theorem WellFormed.isPruned_iff_nil {coins : CCoins} (formed : coins.WellFormed) :
    coins.isPruned = true ↔ coins.vout = [] := by
  constructor
  · intro pruned
    by_contra nonempty
    have last := formed.getLast_full _ (List.getLast?_eq_some_getLast nonempty)
    rw [isPruned, List.all_eq_true] at pruned
    rw [pruned _ (List.getLast_mem nonempty)] at last
    cases last
  · intro empty
    simp [isPruned, empty]

theorem WellFormed.cleanup_eq {coins : CCoins} (formed : coins.WellFormed) :
    coins.cleanup = coins := by
  rw [cleanup, formed.rdropWhile_eq]

/-- Outside the pruned coins, `operator==` is equality. -/
theorem equals_iff (a b : CCoins) :
    a.equals b = true ↔ (a.isPruned = true ∧ b.isPruned = true) ∨ a = b := by
  unfold equals
  by_cases both : a.isPruned = true ∧ b.isPruned = true
  · simp [both]
  · have neither : (a.isPruned && b.isPruned) = false := by
      rw [← Bool.not_eq_true, Bool.and_eq_true]
      exact both
    cases a
    cases b
    simp only [neither, Bool.false_eq_true, ↓reduceIte, Bool.and_eq_true, beq_iff_eq, both,
      false_or, mk.injEq]
    tauto

/-! ## Spending one output and undoing it -/

/-- What a successful spend does. -/
theorem spend_eq_some {coins spent : CCoins} {n : Nat} {undo : CTxInUndo}
    (spends : coins.spend n = some (spent, undo)) :
    ∃ out, coins.vout[n]? = some out ∧ out.isNull = false ∧
      spent = { coins with vout := erase CTxOut.isNull CTxOut.null coins.vout n } ∧
      undo = if spent.vout = [] then
          { txout := out, fCoinBase := coins.fCoinBase, fCoinStake := coins.fCoinStake,
            nHeight := coins.nHeight, nVersion := coins.nVersion }
        else { txout := out } := by
  unfold spend at spends
  split at spends
  · cases spends
  · rename_i out found
    split at spends
    · cases spends
    · rename_i unspent
      refine ⟨out, found, Bool.not_eq_true _ ▸ unspent, ?_⟩
      simp only [List.length_eq_zero_iff] at spends
      split at spends
      · rename_i last
        obtain ⟨rfl, rfl⟩ := Prod.mk.inj (Option.some.inj spends)
        exact ⟨rfl, (if_pos last).symm⟩
      · rename_i last
        obtain ⟨rfl, rfl⟩ := Prod.mk.inj (Option.some.inj spends)
        exact ⟨rfl, (if_neg last).symm⟩

theorem WellFormed.spend {coins spent : CCoins} {n : Nat} {undo : CTxInUndo}
    (formed : coins.WellFormed) (spends : coins.spend n = some (spent, undo)) :
    spent.WellFormed := by
  obtain ⟨out, found, unspent, rfl, rfl⟩ := spend_eq_some spends
  exact Trimmed.erase formed n

/-- Spending clears the one output. -/
theorem unspent_spend {coins spent : CCoins} {n m : Nat} {undo : CTxInUndo}
    (spends : coins.spend n = some (spent, undo)) :
    spent.Unspent m ↔ coins.Unspent m ∧ m ≠ n := by
  obtain ⟨out, found, unspent, rfl, rfl⟩ := spend_eq_some spends
  constructor
  · intro ⟨other, here, full⟩
    obtain ⟨before, different⟩ := (getElem?_erase CTxOut.isNull_null full).mp here
    exact ⟨⟨other, before, full⟩, different⟩
  · intro ⟨⟨other, before, full⟩, different⟩
    exact ⟨other, (getElem?_erase CTxOut.isNull_null full).mpr ⟨before, different⟩, full⟩

theorem unspent_of_spend {coins spent : CCoins} {n : Nat} {undo : CTxInUndo}
    (spends : coins.spend n = some (spent, undo)) : coins.Unspent n := by
  obtain ⟨out, found, unspent, -, -⟩ := spend_eq_some spends
  exact ⟨out, found, unspent⟩

theorem isAvailable_eq_false {coins : CCoins} {n : Nat} (spent : ¬ coins.Unspent n) :
    coins.isAvailable n = false := by
  unfold isAvailable
  split
  · rename_i out found
    cases null : out.isNull with
    | true => rfl
    | false => exact (spent ⟨out, found, null⟩).elim
  · rfl

end CCoins

namespace CTxInUndo

open CCoins Foundation.TrimmedArray

/-- The outputs after one round of the restore loop. -/
theorem resize_set (vout : List CTxOut) (n : Nat) (out : CTxOut) :
    (if vout.length < n + 1 then resizeOutputs vout (n + 1) else vout).set n out =
      restore CTxOut.null vout n out := by
  unfold resizeOutputs restore
  split
  · rfl
  · rw [show n + 1 - vout.length = 0 by omega, List.replicate_zero, List.append_nil]

/-- Undoing a spend that left other outputs: only the coinstake flag of the
coins at hand, which may be wrong, is carried along. -/
theorem apply_of_remaining {coins spent : CCoins} {n : Nat} {undo : CTxInUndo} (stake : Bool)
    (formed : coins.WellFormed) (spends : coins.spend n = some (spent, undo))
    (remaining : spent.isPruned = false) :
    undo.apply n { spent with fCoinStake := stake } =
      ({ coins with fCoinStake := stake }, true) := by
  have cleared : ¬ ({ spent with fCoinStake := stake } : CCoins).Unspent n :=
    fun unspent => ((unspent_spend spends).mp unspent).2 rfl
  have unavailable := isAvailable_eq_false cleared
  have pruned : ({ spent with fCoinStake := stake } : CCoins).isPruned = false := remaining
  have formedSpent := formed.spend spends
  obtain ⟨out, found, unspent, rfl, undoEq⟩ := spend_eq_some spends
  rw [if_neg (fun empty => by
    rw [formedSpent.isPruned_iff_nil.mpr empty] at remaining
    cases remaining)] at undoEq
  subst undoEq
  simp only [apply, ne_eq, not_true_eq_false, ↓reduceIte, resize_set, unavailable, pruned,
    Bool.not_false, Bool.and_self]
  rw [restore_eq formed CTxOut.isNull_null found]

/-- Undoing the spend of a last output: the record's metadata comes back, save
for the coinstake flag. -/
theorem apply_of_last {coins spent current : CCoins} {n : Nat} {undo : CTxInUndo}
    (formed : coins.WellFormed) (spends : coins.spend n = some (spent, undo))
    (last : spent.isPruned = true) (pruned : current.isPruned = true)
    (height : coins.nHeight ≠ 0) :
    undo.apply n current = ({ coins with fCoinStake := false }, true) := by
  have formedSpent := formed.spend spends
  have empty := formedSpent.isPruned_iff_nil.mp last
  obtain ⟨out, found, unspent, rfl, undoEq⟩ := spend_eq_some spends
  rw [if_pos empty] at undoEq
  subst undoEq
  simp only at empty
  have outputs : restore CTxOut.null [] n out = coins.vout := by
    rw [← empty]
    exact restore_eq formed CTxOut.isNull_null found
  have unavailable : ∀ blank : CCoins, blank.vout = [] → blank.isAvailable n = false := by
    intro blank nothing
    simp [isAvailable, nothing]
  simp only [apply, ne_eq, height, not_false_eq_true, ↓reduceIte, pruned, resize_set]
  rw [unavailable _ rfl]
  simp only [clear, outputs, Bool.not_false, Bool.and_self]

/-- Without a height the record does not say that it ends its transaction, and
the mismatch is reported. -/
theorem apply_of_last_zero {coins spent current : CCoins} {n : Nat} {undo : CTxInUndo}
    (formed : coins.WellFormed) (spends : coins.spend n = some (spent, undo))
    (last : spent.isPruned = true) (pruned : current.isPruned = true)
    (height : coins.nHeight = 0) : (undo.apply n current).2 = false := by
  have empty := (formed.spend spends).isPruned_iff_nil.mp last
  obtain ⟨out, found, unspent, rfl, undoEq⟩ := spend_eq_some spends
  rw [if_pos empty] at undoEq
  subst undoEq
  simp [apply, height, pruned]

end CTxInUndo

namespace CCoins

open Foundation.TrimmedArray

/-! ## The coins a transaction creates -/

theorem wellFormed_fromTx {tx : CTransaction} (nHeight : Int)
    (values : ∀ out ∈ tx.vout, out.isNull = false) : (fromTx tx nHeight).WellFormed := by
  apply trimmed_rdropWhile
  intro out member null
  obtain ⟨original, present, rfl⟩ := List.mem_map.mp member
  split
  · rfl
  · rename_i spendable
    rw [if_neg spendable, values original present] at null
    cases null

/-- Clearing the unspendable outputs of created coins changes nothing, whatever
their coinstake flag. -/
theorem clearUnspendable_fromTx {tx : CTransaction} (nHeight : Int)
    (values : ∀ out ∈ tx.vout, out.isNull = false) (stake : Bool) :
    clearUnspendable { fromTx tx nHeight with fCoinStake := stake } =
      { fromTx tx nHeight with fCoinStake := stake } := by
  have spendable : ∀ out ∈ (fromTx tx nHeight).vout,
      CScript.isUnspendable out.scriptPubKey = false := by
    intro out member
    have inside := (List.rdropWhile_prefix _ _).subset member
    obtain ⟨original, -, rfl⟩ := List.mem_map.mp inside
    split
    · rfl
    · rename_i spendable
      simpa using spendable
  have kept : (fromTx tx nHeight).vout.map (fun out =>
      if CScript.isUnspendable out.scriptPubKey then CTxOut.null else out) =
        (fromTx tx nHeight).vout := by
    conv_rhs => rw [← List.map_id (fromTx tx nHeight).vout]
    apply List.map_congr_left
    intro out member
    simp [spendable out member]
  unfold clearUnspendable
  rw [kept]
  exact WellFormed.cleanup_eq (wellFormed_fromTx nHeight values)

/-- Pruned coins stay pruned. -/
theorem isPruned_clearUnspendable {coins : CCoins} (pruned : coins.isPruned = true) :
    coins.clearUnspendable.isPruned = true := by
  rw [isPruned, List.all_eq_true] at pruned ⊢
  intro out member
  have inside := (List.rdropWhile_prefix _ _).subset member
  obtain ⟨original, present, rfl⟩ := List.mem_map.mp inside
  split
  · rfl
  · exact pruned original present

end CCoins

end GiantCore
