import GiantCore.SwiftTx.Locks
import Mathlib.Data.Finset.Order

/-! # The height at which voters are ranked

`CreateNewLock` takes the height from the age of an input. Its loop goes over all inputs, and the
age of the one that it looks at last, the first input of the transaction, stays.
-/

namespace GiantCore

namespace SwiftEnv

/-- `GetInputAge` of a node whose coins have these heights. -/
def inputAge (nHeight : Uint256 → Option Int) (tip : Int) (txin : CTxIn) : Int :=
  match nHeight txin.prevout.hash with
  | none => -1
  | some nHeight => if nHeight < 0 then 0 else tip + 1 - nHeight

/-- The node has a tip and its coins have these heights. -/
structure Reads (env : SwiftEnv) (nHeight : Uint256 → Option Int) : Prop where
  tip : env.node.tip.isSome = true
  age : env.getInputAge = inputAge nHeight env.node.height

/-- No input is too new for a lock. -/
def Matured (env : SwiftEnv) (vin : List CTxIn) : Prop := ∀ txin ∈ vin, 5 ≤ env.getInputAge txin

instance (env : SwiftEnv) (vin : List CTxIn) : Decidable (env.Matured vin) :=
  inferInstanceAs (Decidable (∀ txin ∈ vin, 5 ≤ env.getInputAge txin))

end SwiftEnv

namespace SwiftState

open SwiftEnv

/-- The height that `CreateNewLock` stores in the lock of a transaction. -/
def storedHeight (state : SwiftState) (env : SwiftEnv) (tx : CTransaction) : Option Int :=
  (state.createNewLock env tx).1.mapTxLocks[tx.hash]?.map CTransactionLock.nBlockHeight

theorem storedHeight_eq (state : SwiftState) {env : SwiftEnv} {tx : CTransaction}
    (matured : env.Matured tx.vin) :
    state.storedHeight env tx =
      some (env.node.height - tx.vin.head?.elim 0 env.getInputAge + 4) := by
  have old : ¬ (tx.vin.any fun txin => env.getInputAge txin < 5) = true := by
    rw [List.any_eq_true]
    rintro ⟨txin, member, young⟩
    exact absurd (of_decide_eq_true young) (not_lt.mpr (matured txin member))
  unfold storedHeight createNewLock
  rw [if_neg old]
  dsimp only
  rw [Std.ExtTreeMap.getElem?_insert_self, Option.map_some]
  cases state.mapTxLocks[tx.hash]? with
  | none => rfl
  | some lock => rfl

/-- **The height is a function of the heights of the inputs**: all nodes that make a lock for
transactions whose inputs have these heights, in any order, store the same one. -/
def Agreed (nHeight : Uint256 → Option Int) (vin : List CTxIn) : Prop :=
  ∀ (env env' : SwiftEnv) (state state' : SwiftState) (tx tx' : CTransaction),
    env.Reads nHeight → env'.Reads nHeight → tx.vin = vin →
    (tx'.vin.map fun txin => nHeight txin.prevout.hash).Perm
      (vin.map fun txin => nHeight txin.prevout.hash) →
    env.Matured tx.vin → env'.Matured tx'.vin →
    state.storedHeight env tx = state'.storedHeight env' tx'

/-- The first input decides. -/
theorem storedHeight_of_head (state : SwiftState) {env : SwiftEnv}
    {nHeight : Uint256 → Option Int} {tx : CTransaction} {first : CTxIn} {height : Int}
    (reads : env.Reads nHeight) (matured : env.Matured tx.vin) (head : tx.vin.head? = some first)
    (known : nHeight first.prevout.hash = some height) (confirmed : 0 ≤ height) :
    state.storedHeight env tx = some (height + 3) := by
  have age : env.getInputAge first = env.node.height + 1 - height := by
    rw [reads.age, inputAge, known]
    exact if_neg (not_lt.mpr confirmed)
  rw [state.storedHeight_eq matured, head, Option.elim_some, age]
  congr 1
  omega

theorem agreed_of_one_height {nHeight : Uint256 → Option Int} {vin : List CTxIn} {height : Int}
    (some_ : vin ≠ []) (confirmed : 0 ≤ height)
    (same : ∀ txin ∈ vin, nHeight txin.prevout.hash = some height) : Agreed nHeight vin := by
  intro env env' state state' tx tx' reads reads' inputs perm matured matured'
  obtain ⟨first, rest, split⟩ := List.exists_cons_of_ne_nil some_
  have some' : tx'.vin ≠ [] := by
    intro empty
    rw [empty, List.map_nil, split, List.map_cons] at perm
    exact List.cons_ne_nil _ _ (List.nil_perm.mp perm)
  obtain ⟨first', rest', split'⟩ := List.exists_cons_of_ne_nil some'
  have known' : nHeight first'.prevout.hash = some height := by
    have member : nHeight first'.prevout.hash ∈ vin.map fun txin => nHeight txin.prevout.hash := by
      refine perm.subset ?_
      rw [split', List.map_cons]
      exact List.mem_cons_self
    obtain ⟨txin, inside, equal⟩ := List.mem_map.mp member
    rw [← equal, same txin inside]
  rw [state.storedHeight_of_head reads matured (by rw [inputs, split, List.head?_cons])
      (same first (by rw [split]; exact List.mem_cons_self)) confirmed,
    state'.storedHeight_of_head reads' matured' (by rw [split', List.head?_cons]) known' confirmed]

/-- A node with this tip. -/
def nodeAt (nHeight : Uint256 → Option Int) (tip : Int) : SwiftEnv :=
  { swiftEnv true 1600000000 with
    node := NodeContext.mainNode tip
    getInputAge := inputAge nHeight tip }

theorem nodeAt_reads (nHeight : Uint256 → Option Int) (tip : Int) :
    (nodeAt nHeight tip).Reads nHeight :=
  ⟨rfl, rfl⟩

/-- There is a node that is far enough to make a lock. -/
theorem exists_matured {nHeight : Uint256 → Option Int} {vin : List CTxIn}
    (confirmed : ∀ txin ∈ vin, ∃ height, nHeight txin.prevout.hash = some height ∧ 0 ≤ height) :
    ∃ tip, (nodeAt nHeight tip).Matured vin := by
  obtain ⟨bound, above⟩ :=
    ((vin.map fun txin => (nHeight txin.prevout.hash).getD 0).toFinset).exists_le
  refine ⟨bound + 4, fun txin member => ?_⟩
  obtain ⟨height, known, nonneg⟩ := confirmed txin member
  have low : height ≤ bound := by
    refine above height (List.mem_toFinset.mpr (List.mem_map.mpr ⟨txin, member, ?_⟩))
    rw [known, Option.getD_some]
  change 5 ≤ inputAge nHeight (bound + 4) txin
  rw [inputAge, known]
  dsimp only
  rw [if_neg (not_lt.mpr nonneg)]
  omega

/-- **When the height of a lock is a function of the heights of the inputs**: there are inputs, and
they are all in blocks of the same height. -/
theorem agreed_iff_one_height (nHeight : Uint256 → Option Int) (vin : List CTxIn)
    (confirmed : ∀ txin ∈ vin, ∃ height, nHeight txin.prevout.hash = some height ∧ 0 ≤ height) :
    Agreed nHeight vin ↔ vin ≠ [] ∧ ∀ first ∈ vin, ∀ second ∈ vin,
      nHeight first.prevout.hash = nHeight second.prevout.hash := by
  constructor
  · intro agreed
    constructor
    · rintro rfl
      -- without inputs the height comes from the tip
      have noInputs : ∀ tip, (nodeAt nHeight tip).Matured [] :=
        fun tip _ none => absurd none List.not_mem_nil
      have equal := agreed (nodeAt nHeight 100) (nodeAt nHeight 200) {} {} ⟨1, 1, [], [], 0⟩
        ⟨1, 1, [], [], 0⟩ (nodeAt_reads _ _) (nodeAt_reads _ _) rfl (List.Perm.refl _)
        (noInputs 100) (noInputs 200)
      rw [storedHeight_eq _ (noInputs 100), storedHeight_eq _ (noInputs 200)] at equal
      exact absurd (Option.some.inj equal) (by decide : ¬ (100 - 0 + 4 : Int) = 200 - 0 + 4)
    · intro first inFirst second inSecond
      obtain ⟨tip, matured⟩ := exists_matured confirmed
      -- either of the two inputs may come first
      have front : ∀ txin ∈ vin, ∃ rest, (txin :: rest).Perm vin := by
        intro txin member
        obtain ⟨before, after, split⟩ := List.append_of_mem member
        exact ⟨before ++ after, split ▸ List.perm_middle.symm⟩
      have height : ∀ txin ∈ vin, ∀ state : SwiftState,
          ∃ tx : CTransaction, state.storedHeight (nodeAt nHeight tip) tx =
            (nHeight txin.prevout.hash).map (· + 3) ∧ tx.vin.Perm vin := by
        intro txin member state
        obtain ⟨rest, perm⟩ := front txin member
        obtain ⟨height, known, nonneg⟩ := confirmed txin member
        refine ⟨⟨1, 1, txin :: rest, [], 0⟩, ?_, perm⟩
        rw [known, Option.map_some]
        exact state.storedHeight_of_head (nodeAt_reads nHeight tip)
          (fun other inside => matured other (perm.subset inside)) rfl known nonneg
      have stored : ∀ txin ∈ vin,
          SwiftState.storedHeight {} (nodeAt nHeight tip) ⟨1, 1, vin, [], 0⟩ =
          (nHeight txin.prevout.hash).map (· + 3) := by
        intro txin member
        obtain ⟨tx, here, perm⟩ := height txin member {}
        rw [← here]
        exact agreed _ _ _ _ _ _ (nodeAt_reads nHeight tip) (nodeAt_reads nHeight tip) rfl
          (perm.map _) matured fun other inside => matured other (perm.subset inside)
      have both := (stored first inFirst).symm.trans (stored second inSecond)
      exact Option.map_injective (fun _ _ same => add_right_cancel same) both
  · rintro ⟨some_, same⟩
    obtain ⟨first, inFirst⟩ := List.exists_mem_of_ne_nil vin some_
    obtain ⟨height, known, nonneg⟩ := confirmed first inFirst
    exact agreed_of_one_height some_ nonneg fun txin member =>
      (same txin member first inFirst).trans known

/-- Two outputs of one transaction. -/
theorem agreed_iff_one_height_twoOutputs :
    Agreed (fun _ => some 100) [{ prevout := ⟨7, 0⟩ }, { prevout := ⟨7, 1⟩ }] :=
  (agreed_iff_one_height _ _ fun _ _ => ⟨100, rfl, by decide⟩).mpr
    ⟨List.cons_ne_nil _ _, fun _ _ _ _ => rfl⟩

/-- Two inputs from blocks 100 and 200, in both orders. -/
theorem not_agreed_swapped :
    ¬ ∀ (nHeight : Uint256 → Option Int) (vin : List CTxIn),
      (∀ txin ∈ vin, ∃ height, nHeight txin.prevout.hash = some height ∧ 0 ≤ height) →
        Agreed nHeight vin := by
  intro all
  have confirmed : ∀ txin ∈ ([{ prevout := ⟨100, 0⟩ }, { prevout := ⟨200, 0⟩ }] : List CTxIn),
      ∃ height, (fun hash : Uint256 => some (hash.toNat : Int)) txin.prevout.hash = some height ∧
        0 ≤ height :=
    fun txin _ => ⟨_, rfl, Int.natCast_nonneg _⟩
  have agreed := all (fun hash => some hash.toNat) _ confirmed
  have equal := agreed (nodeAt _ 500) (nodeAt _ 500) {} {}
    ⟨1, 1, [{ prevout := ⟨100, 0⟩ }, { prevout := ⟨200, 0⟩ }], [], 0⟩
    ⟨1, 1, [{ prevout := ⟨200, 0⟩ }, { prevout := ⟨100, 0⟩ }], [], 0⟩
    (nodeAt_reads _ _) (nodeAt_reads _ _) rfl (List.Perm.swap _ _ _) (by decide) (by decide)
  exact absurd equal (by decide)

end SwiftState

end GiantCore
