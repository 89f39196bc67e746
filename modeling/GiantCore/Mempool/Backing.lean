import GiantCore.Mempool.Removal
import GiantCore.Validation.Overwrites

/-! # The coins behind the memory pool

An input of a transaction of the pool spends an output of another one of the pool, or a
coin of the chain that is there and mature. Coins are those of the transactions that
hashes stand for, and what is left of an entry after spending keeps its flags.
-/

namespace GiantCore

open Foundation.TrimmedArray

/-- Outpoints with the same hash and index are the same. -/
theorem COutPoint.eq_of_toNat {out other : COutPoint} (hash : out.hash = other.hash)
    (index : out.n.toNat = other.n.toNat) : out = other := by
  cases out
  cases other
  simp only at hash index
  rw [hash, UInt32.toNat_inj.mp index]

namespace CCoins

/-- What is left of an entry when some of its outputs are spent. -/
structure Remains (coins left : CCoins) : Prop where
  fCoinBase : left.fCoinBase = coins.fCoinBase
  fCoinStake : left.fCoinStake = coins.fCoinStake
  nHeight : left.nHeight = coins.nHeight
  outputs : ∀ (n : Nat) out, left.vout[n]? = some out → out.isNull = false →
    coins.vout[n]? = some out

namespace Remains

/-- Coins remain what they are. -/
theorem refl (coins : CCoins) : Remains coins coins := ⟨rfl, rfl, rfl, fun _ _ found _ => found⟩

/-- What remains of the rest remains of the whole. -/
theorem trans {first second third : CCoins} (before : Remains first second)
    (after : Remains second third) : Remains first third where
  fCoinBase := after.fCoinBase.trans before.fCoinBase
  fCoinStake := after.fCoinStake.trans before.fCoinStake
  nHeight := after.nHeight.trans before.nHeight
  outputs n out found full := before.outputs n out (after.outputs n out found full) full

/-- Cleaning up takes no unspent output. -/
theorem cleanup (coins : CCoins) : Remains coins coins.cleanup :=
  ⟨rfl, rfl, rfl, fun _ _ found full => (getElem?_rdropWhile full).mp found⟩

/-- Spending takes one output. -/
theorem spend {coins left : CCoins} {n : Nat} {undo : CTxInUndo}
    (spends : coins.spend n = some (left, undo)) : Remains coins left := by
  obtain ⟨_, -, -, rfl, -⟩ := spend_eq_some spends
  exact ⟨rfl, rfl, rfl, fun _ _ found full =>
    ((getElem?_erase CTxOut.isNull_null full).mp found).1⟩

/-- Where something remains, something was there. -/
theorem isPruned {coins left : CCoins} (remains : Remains coins left)
    (alive : left.isPruned = false) : coins.isPruned = false := by
  obtain ⟨n, out, found, full⟩ := (not_isPruned_iff left).mp alive
  exact (not_isPruned_iff coins).mpr ⟨n, out, remains.outputs n out found full, full⟩

end Remains

/-- An available output is there, and is no mint. -/
theorem isAvailable_iff {coins : CCoins} {n : Nat} :
    coins.isAvailable n = true ↔
      ∃ out, coins.vout[n]? = some out ∧ out.isNull = false ∧ out.isZerocoinMint = false := by
  unfold isAvailable
  split
  · rename_i out found
    simp [found]
  · rename_i absent
    simp [absent]

/-- Coins with an unspent output are not pruned. -/
theorem Unspent.isPruned {coins : CCoins} {n : Nat} (unspent : coins.Unspent n) :
    coins.isPruned = false := (not_isPruned_iff coins).mpr ⟨n, unspent⟩

/-- Coins of a coinbase or a coinstake wait until they are deep enough. -/
def Mature (supply : SupplyParams) (nSpendHeight : Int) (coins : CCoins) : Prop :=
  (coins.fCoinBase || coins.fCoinStake) = true →
    supply.maturity coins.nHeight ≤ nSpendHeight - coins.nHeight

/-- What remains of mature coins is mature. -/
theorem Mature.remains {supply : SupplyParams} {nSpendHeight : Int} {coins left : CCoins}
    (mature : coins.Mature supply nSpendHeight) (remains : Remains coins left) :
    left.Mature supply nSpendHeight := by
  unfold Mature at mature ⊢
  rw [remains.fCoinBase, remains.fCoinStake, remains.nHeight]
  exact mature

/-- Mature coins stay mature. -/
theorem Mature.mono {supply : SupplyParams} {height nSpendHeight : Int} {coins : CCoins}
    (mature : coins.Mature supply height) (later : height ≤ nSpendHeight) :
    coins.Mature supply nSpendHeight := by
  intro generated
  have deep := mature generated
  omega

end CCoins

namespace CoinsMap

def Remains (view left : CoinsMap) : Prop := ∀ txid, (view txid).Remains (left txid)

/-- A view remains what it is. -/
theorem Remains.refl (view : CoinsMap) : Remains view view := fun txid => .refl (view txid)

/-- Spending inputs takes outputs only. -/
theorem remains_spendInputs {vin : List CTxIn} {view after : CoinsMap} {undos : List CTxInUndo}
    (spends : spendInputs vin view = some (after, undos)) : Remains view after := by
  induction vin generalizing view undos with
  | nil =>
      cases spends
      exact .refl after
  | cons txin rest ih =>
      obtain ⟨coins, undo, others, first, remaining, rfl⟩ := spendInputs_cons spends
      intro txid
      have later := ih remaining txid
      by_cases same : txid = txin.prevout.hash
      · subst same
        rw [modifyCoins_self] at later
        exact ((CCoins.Remains.spend first).trans (.cleanup coins)).trans later
      · rwa [modifyCoins_of_ne _ _ same] at later

/-- Marking inputs as spent takes outputs only. -/
theorem remains_markSpent {tx : CTransaction} {view after : CoinsMap} {undo : CTxUndo}
    (marked : markSpent tx view = some (after, undo)) : Remains view after := by
  rcases markSpent_cases marked with ⟨-, spends⟩ | ⟨-, rfl⟩
  · exact remains_spendInputs spends
  · exact .refl after

/-- Outputs that are there and differ can be spent one after the other. -/
theorem exists_spendInputs {vin : List CTxIn} {view : CoinsMap}
    (unspent : ∀ txin ∈ vin, (view txin.prevout.hash).Unspent txin.prevout.n.toNat)
    (distinct : (vin.map CTxIn.prevout).Nodup) :
    ∃ after undos, spendInputs vin view = some (after, undos) := by
  induction vin generalizing view with
  | nil => exact ⟨view, [], rfl⟩
  | cons txin rest ih =>
      rw [List.map_cons, List.nodup_cons] at distinct
      rw [List.forall_mem_cons] at unspent
      obtain ⟨out, found, full⟩ := unspent.1
      obtain ⟨coins, undo, spends⟩ : ∃ coins undo,
          (view txin.prevout.hash).spend txin.prevout.n.toNat = some (coins, undo) := by
        unfold CCoins.spend
        rw [found]
        dsimp only
        rw [if_neg (by rw [full]; exact Bool.false_ne_true)]
        split
        · exact ⟨_, _, rfl⟩
        · exact ⟨_, _, rfl⟩
      have left : ∀ other ∈ rest,
          ((view.modifyCoins txin.prevout.hash coins) other.prevout.hash).Unspent
            other.prevout.n.toNat := by
        intro other member
        have here := unspent.2 other member
        by_cases same : other.prevout.hash = txin.prevout.hash
        · rw [same] at here ⊢
          rw [modifyCoins_self, CCoins.unspent_cleanup, CCoins.unspent_spend spends]
          refine ⟨here, ?_⟩
          intro index
          apply distinct.1
          rw [COutPoint.eq_of_toNat same.symm index.symm]
          exact List.mem_map_of_mem member
        · rw [modifyCoins_of_ne _ _ same]
          exact here
      obtain ⟨after, undos, later⟩ := ih left distinct.2
      refine ⟨after, undo :: undos, ?_⟩
      simp only [spendInputs, spends, later, Option.bind_eq_bind, Option.bind_some,
        Option.pure_def]

/-- **Coins are those of the transactions that hashes stand for.** -/
structure FromKnown (known : Uint256 → CTransaction) (coins : CoinsMap) : Prop where
  outputs : ∀ txid (n : Nat) out, (coins txid).vout[n]? = some out → out.isNull = false →
    (known txid).vout[n]? = some out ∧ CScript.isUnspendable out.scriptPubKey = false
  coinBase : ∀ txid, (coins txid).isPruned = false → (coins txid).fCoinBase = true →
    (known txid).isCoinBase = true
  coinStake : ∀ txid, (coins txid).isPruned = false → (coins txid).fCoinStake = true →
    (known txid).isCoinStake = true

namespace FromKnown

variable {known : Uint256 → CTransaction} {coins : CoinsMap}

/-- What remains of known coins is known. -/
theorem remains {left : CoinsMap} (origins : FromKnown known coins) (remains : Remains coins left) :
    FromKnown known left where
  outputs txid n out found full := origins.outputs txid n out
    ((remains txid).outputs n out found full) full
  coinBase txid alive generated := origins.coinBase txid ((remains txid).isPruned alive)
    ((remains txid).fCoinBase ▸ generated)
  coinStake txid alive generated := origins.coinStake txid ((remains txid).isPruned alive)
    ((remains txid).fCoinStake ▸ generated)

/-- The outputs that a transaction makes. -/
theorem getElem?_fromTx {tx : CTransaction} {nHeight : Int} {n : Nat} {out : CTxOut}
    (found : (CCoins.fromTx tx nHeight).vout[n]? = some out) (full : out.isNull = false) :
    tx.vout[n]? = some out ∧ CScript.isUnspendable out.scriptPubKey = false := by
  have kept := (getElem?_rdropWhile full).mp found
  rw [List.getElem?_map] at kept
  obtain ⟨original, here, same⟩ := Option.map_eq_some_iff.mp kept
  split at same
  · rw [← same] at full
    cases full
  · rename_i spendable
    rw [← same]
    exact ⟨here, by simpa using spendable⟩

/-- The outputs of a known transaction are known. -/
theorem addOutputs {tx : CTransaction} (origins : FromKnown known coins)
    (named : known tx.hash = tx) (nHeight : Int) :
    FromKnown known (CoinsMap.addOutputs tx nHeight coins) := by
  have entry : CoinsMap.addOutputs tx nHeight coins tx.hash =
      (CCoins.fromTx tx nHeight).cleanup := modifyCoins_self ..
  have others : ∀ txid, txid ≠ tx.hash →
      CoinsMap.addOutputs tx nHeight coins txid = coins txid :=
    fun _ different => modifyCoins_of_ne _ _ different
  refine ⟨?_, ?_, ?_⟩
  · intro txid n out found full
    by_cases same : txid = tx.hash
    · subst same
      rw [entry] at found
      rw [named]
      exact getElem?_fromTx ((getElem?_rdropWhile full).mp found) full
    · rw [others txid same] at found
      exact origins.outputs txid n out found full
  · intro txid alive generated
    by_cases same : txid = tx.hash
    · subst same
      rw [entry] at generated
      rw [named]
      exact generated
    · rw [others txid same] at alive generated
      exact origins.coinBase txid alive generated
  · intro txid alive generated
    by_cases same : txid = tx.hash
    · subst same
      rw [entry] at generated
      rw [named]
      exact generated
    · rw [others txid same] at alive generated
      exact origins.coinStake txid alive generated

/-- Of an output that can be spent it is enough that it is unspent. -/
theorem isAvailable_of_unspent (origins : FromKnown known coins) {txid : Uint256} {n : Nat}
    {out : CTxOut} (found : (known txid).vout[n]? = some out) (spendable : out.Spendable)
    (unspent : (coins txid).Unspent n) : (coins txid).isAvailable n = true := by
  obtain ⟨other, here, full⟩ := unspent
  obtain ⟨same, -⟩ := origins.outputs txid n other here full
  rw [found] at same
  cases same
  exact CCoins.isAvailable_iff.mpr ⟨out, here, full, spendable.2.2⟩

/-- An output that is available can be spent. -/
theorem spendable_of_isAvailable (origins : FromKnown known coins) {txid : Uint256} {n : Nat}
    (available : (coins txid).isAvailable n = true) :
    (∃ out, (known txid).vout[n]? = some out ∧ out.Spendable) ∧ (coins txid).Unspent n := by
  obtain ⟨out, here, full, noMint⟩ := CCoins.isAvailable_iff.mp available
  obtain ⟨found, spendable⟩ := origins.outputs txid n out here full
  exact ⟨⟨out, found, full, spendable, noMint⟩, out, here, full⟩

/-- The value of an unspent output. -/
theorem value_eq (origins : FromKnown known coins) {txin : CTxIn}
    (unspent : (coins txin.prevout.hash).Unspent txin.prevout.n.toNat) :
    ((coins txin.prevout.hash).vout[txin.prevout.n.toNat]?.getD CTxOut.null).nValue =
      spentValue known txin := by
  obtain ⟨out, here, full⟩ := unspent
  obtain ⟨found, -⟩ := origins.outputs _ _ out here full
  rw [here, spentValue, found]

end FromKnown

/-- The coins of a transaction of the pool need not mature. -/
theorem FromKnown.mature {known : Uint256 → CTransaction} {coins : CoinsMap}
    {params : CChainParams} {tx : CTransaction} (origins : FromKnown known coins)
    (admitted : Admitted known params tx) (alive : (coins tx.hash).isPruned = false)
    (supply : SupplyParams) (nSpendHeight : Int) :
    (coins tx.hash).Mature supply nSpendHeight := by
  intro generated
  rcases Bool.or_eq_true_iff.mp generated with base | stake
  · have impossible := origins.coinBase _ alive base
    rw [admitted.named, admitted.notCoinBase] at impossible
    cases impossible
  · have impossible := origins.coinStake _ alive stake
    rw [admitted.named, admitted.notCoinStake] at impossible
    cases impossible

/-- An output of the chain that a transaction of the next block can spend. -/
def Offers (supply : SupplyParams) (nSpendHeight : Int) (coins : CoinsMap) (out : COutPoint) :
    Prop :=
  (coins out.hash).Unspent out.n.toNat ∧ (coins out.hash).Mature supply nSpendHeight

end CoinsMap

/-- **Every input has an output to spend**, in the pool or elsewhere. -/
def TxPool.Backed (pool : TxPool) (offered : COutPoint → Prop) : Prop :=
  ∀ hash tx, pool.lookup hash = some tx → tx.spendsInputs = true → ∀ txin ∈ tx.vin,
    (pool.lookup txin.prevout.hash).isSome ∨ offered txin.prevout

namespace TxPool.Backed

variable {known : Uint256 → CTransaction} {params : CChainParams} {pool after : TxPool}
  {offered : COutPoint → Prop}

/-- A pool that is backed by less is backed by more. -/
theorem mono {more : COutPoint → Prop} (backed : pool.Backed offered)
    (grows : ∀ out, offered out → more out) : pool.Backed more := by
  intro hash tx here spends txin member
  exact (backed hash tx here spends txin member).imp_right (grows txin.prevout)

/-- What is left of a backed pool is backed. -/
theorem removes (backed : pool.Backed offered) (removes : Removes known params pool after) :
    after.Backed offered := by
  intro hash tx here spends txin member
  refine (backed hash tx (removes.within hash tx here) spends txin member).imp_left ?_
  exact removes.parents hash tx here spends txin member

end TxPool.Backed

end GiantCore
