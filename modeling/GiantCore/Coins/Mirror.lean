import GiantCore.Coins.Supply

/-! # Coins that differ in the coinstake flag

Disconnecting a block gives its coins back without the coinstake flag of those that had
lost all their outputs. From then on the node works on other coins than the ones that it
had when it first connected its blocks. They differ in the flag only, and in what is left
of spent entries, and this stays so whatever is connected and disconnected further.
-/

namespace GiantCore

open CCoins CoinsMap Foundation.TrimmedArray

/-- Both are spent, or they are equal but for the coinstake flag. -/
def CCoins.Alike (coins other : CCoins) : Prop :=
  (coins.isPruned = true ∧ other.isPruned = true) ∨
    ∃ stake, other = { coins with fCoinStake := stake }

/-- Records that are equal but for the coinstake flag. -/
def CTxInUndo.Alike (undo other : CTxInUndo) : Prop :=
  ∃ stake, other = { undo with fCoinStake := stake }

/-- The records of a transaction, one by one. -/
def CTxUndo.Alike (undo other : CTxUndo) : Prop :=
  List.Forall₂ CTxInUndo.Alike undo.vprevout other.vprevout

/-- All entries are alike. -/
def CoinsMap.Mirrors (view current : CoinsMap) : Prop :=
  ∀ txid, (view txid).Alike (current txid)

namespace CCoins.Alike

variable {coins other : CCoins}

/-- Coins are like themselves. -/
theorem refl (coins : CCoins) : coins.Alike coins := Or.inr ⟨coins.fCoinStake, rfl⟩

/-- Coins that are alike are pruned together. -/
theorem isPruned_eq (alike : coins.Alike other) : other.isPruned = coins.isPruned := by
  rcases alike with ⟨first, second⟩ | ⟨stake, rfl⟩
  · rw [first, second]
  · rfl

/-- Coins that are alike have the same value. -/
theorem unspentValue_eq (alike : coins.Alike other) :
    other.unspentValue = coins.unspentValue := by
  rcases alike with ⟨first, second⟩ | ⟨stake, rfl⟩
  · rw [unspentValue_of_isPruned first, unspentValue_of_isPruned second]
  · rfl

/-- Coins that are alike are so after cleaning up. -/
theorem cleanup (alike : coins.Alike other) : coins.cleanup.Alike other.cleanup := by
  rcases alike with ⟨first, second⟩ | ⟨stake, rfl⟩
  · have pruned : ∀ entry : CCoins, entry.isPruned = true → entry.cleanup.isPruned = true := by
      intro entry spent
      rw [isPruned, List.all_eq_true] at spent ⊢
      intro out member
      exact spent out ((List.rdropWhile_prefix _ _).subset member)
    exact Or.inl ⟨pruned _ first, pruned _ second⟩
  · exact Or.inr ⟨stake, rfl⟩

/-- What can be spent of the one can be spent of the other. -/
theorem spend (alike : coins.Alike other) {n : Nat} {spent : CCoins} {undo : CTxInUndo}
    (spends : other.spend n = some (spent, undo)) :
    ∃ left record, coins.spend n = some (left, record) ∧ left.Alike spent ∧
      record.Alike undo := by
  rcases alike with ⟨-, second⟩ | ⟨stake, rfl⟩
  · exact absurd (unspent_of_spend spends) ((isPruned_iff other).mp second n)
  · unfold CCoins.spend at spends ⊢
    dsimp only at spends
    split at spends
    · cases spends
    · rename_i out found
      dsimp only
      split at spends
      · cases spends
      · rename_i unspent
        rw [if_neg unspent]
        split at spends
        · rename_i last
          cases spends
          exact ⟨_, _, if_pos last, Or.inr ⟨stake, rfl⟩, ⟨stake, rfl⟩⟩
        · rename_i last
          cases spends
          exact ⟨_, _, if_neg last, Or.inr ⟨stake, rfl⟩, ⟨false, rfl⟩⟩

end CCoins.Alike

namespace CoinsMap.Mirrors

variable {view current : CoinsMap}

/-- A view mirrors itself. -/
theorem refl (view : CoinsMap) : Mirrors view view := fun txid => .refl (view txid)

/-- A mirrored view has the same total. -/
theorem unspentTotal_eq (mirrors : Mirrors view current) :
    current.unspentTotal = view.unspentTotal :=
  finsum_congr fun txid => (mirrors txid).unspentValue_eq

/-- A change by coins that are alike is mirrored. -/
theorem modifyCoins (mirrors : Mirrors view current) (txid : Uint256) {coins other : CCoins}
    (alike : coins.Alike other) :
    Mirrors (view.modifyCoins txid coins) (current.modifyCoins txid other) := by
  intro entry
  by_cases same : entry = txid
  · subst same
    rw [modifyCoins_self, modifyCoins_self]
    exact alike.cleanup
  · rw [modifyCoins_of_ne _ _ same, modifyCoins_of_ne _ _ same]
    exact mirrors entry

/-! ## Connecting -/

/-- Spending inputs is mirrored. -/
theorem spendInputs {vin : List CTxIn} {after : CoinsMap} {undos : List CTxInUndo}
    (mirrors : Mirrors view current)
    (spends : CoinsMap.spendInputs vin current = some (after, undos)) :
    ∃ left records, CoinsMap.spendInputs vin view = some (left, records) ∧ Mirrors left after ∧
      List.Forall₂ CTxInUndo.Alike records undos := by
  induction vin generalizing view current undos with
  | nil =>
      cases spends
      exact ⟨view, [], rfl, mirrors, .nil⟩
  | cons txin rest ih =>
      obtain ⟨coins, undo, others, first, remaining, rfl⟩ := spendInputs_cons spends
      obtain ⟨spent, record, here, alike, same⟩ := (mirrors txin.prevout.hash).spend first
      obtain ⟨left, records, later, mirrored, others⟩ :=
        ih (mirrors.modifyCoins txin.prevout.hash alike) remaining
      refine ⟨left, record :: records, ?_, mirrored, .cons same others⟩
      simp only [CoinsMap.spendInputs, here, later, Option.bind_eq_bind, Option.bind_some,
        Option.pure_def]

/-- Marking inputs as spent is mirrored. -/
theorem markSpent {tx : CTransaction} {after : CoinsMap} {undo : CTxUndo}
    (mirrors : Mirrors view current)
    (marked : CoinsMap.markSpent tx current = some (after, undo)) :
    ∃ left record, CoinsMap.markSpent tx view = some (left, record) ∧ Mirrors left after ∧
      record.Alike undo := by
  unfold CoinsMap.markSpent at marked ⊢
  split at marked
  · rename_i spends
    obtain ⟨⟨_, undos⟩, done, same⟩ := Option.map_eq_some_iff.mp marked
    cases same
    obtain ⟨left, records, here, mirrored, alike⟩ := mirrors.spendInputs done
    rw [if_pos spends, here]
    exact ⟨left, ⟨records⟩, rfl, mirrored, alike⟩
  · rename_i spends
    cases marked
    rw [if_neg spends]
    exact ⟨view, {}, rfl, mirrors, .nil⟩

/-- Adding outputs is mirrored. -/
theorem addOutputs (mirrors : Mirrors view current) (tx : CTransaction) (nHeight : Int) :
    Mirrors (CoinsMap.addOutputs tx nHeight view) (CoinsMap.addOutputs tx nHeight current) :=
  mirrors.modifyCoins tx.hash (.refl _)

end CoinsMap.Mirrors

/-- **The coins after some transactions**, none of which overwrites an entry that is not
spent, with the records of what they spend. -/
inductive Replays (nHeight : Int) :
    List CTransaction → CoinsMap → List CTxUndo → CoinsMap → Prop where
  | nil {view : CoinsMap} : Replays nHeight [] view [] view
  | cons {tx : CTransaction} {rest : List CTransaction} {view after last : CoinsMap}
      {undo : CTxUndo} {undos : List CTxUndo} (values : ∀ out ∈ tx.vout, out.isNull = false)
      (marked : markSpent tx view = some (after, undo)) (fresh : (after tx.hash).isPruned = true)
      (later : Replays nHeight rest (addOutputs tx nHeight after) undos last) :
      Replays nHeight (tx :: rest) view (undo :: undos) last

namespace Replays

variable {nHeight : Int} {txs : List CTransaction} {view last : CoinsMap} {undos : List CTxUndo}

/-- There is one way to do it. -/
theorem unique (replays : Replays nHeight txs view undos last) {others : List CTxUndo}
    {other : CoinsMap} (again : Replays nHeight txs view others other) :
    others = undos ∧ other = last := by
  induction replays generalizing others with
  | nil =>
      cases again
      exact ⟨rfl, rfl⟩
  | cons values marked fresh later ih =>
      cases again with
      | cons _ markedAgain _ laterAgain =>
          rw [marked, Option.some.injEq, Prod.mk.injEq] at markedAgain
          obtain ⟨rfl, rfl⟩ := markedAgain
          obtain ⟨rfl, rfl⟩ := ih laterAgain
          exact ⟨rfl, rfl⟩

/-- What is replayed stays well formed. -/
theorem wellFormed (replays : Replays nHeight txs view undos last) (formed : view.WellFormed) :
    last.WellFormed := by
  induction replays with
  | nil => exact formed
  | cons values marked fresh later ih =>
      apply ih
      exact (formed.markSpent marked).modifyCoins _ (wellFormed_fromTx nHeight values)

/-- Each transaction that is replayed leaves an undo record. -/
theorem length_undos (replays : Replays nHeight txs view undos last) :
    undos.length = txs.length := by
  induction replays with
  | nil => rfl
  | cons _ _ _ _ ih => rw [List.length_cons, List.length_cons, ih]

/-- The loop of `ConnectBlock`. -/
theorem of_connectTxs (ctx : ConnectContext) {done : List CTransaction}
    {state final : ConnectState}
    (connects : ctx.connectTxs nHeight done txs state = some (undos, final))
    (fresh : OverwritesNone nHeight txs state.view) :
    Replays nHeight txs state.view undos final.view := by
  induction txs generalizing done state undos with
  | nil =>
      cases connects
      exact .nil
  | cons tx rest ih =>
      obtain ⟨undo, next, others, first, remaining, rfl⟩ := ctx.connectTxs_cons connects
      obtain ⟨after, -, marked, created, -, values⟩ := ctx.connectTx_cases first
      have later := ih remaining (ConnectContext.OverwritesNone.connectTx ctx fresh first)
      rw [created] at later
      exact .cons values marked (fresh after undo marked).1 later

/-- What goes on coins that are alike goes on these. -/
theorem of_mirrors {current : CoinsMap} (mirrors : Mirrors view current)
    (replays : Replays nHeight txs current undos last) :
    ∃ records final, Replays nHeight txs view records final ∧ Mirrors final last ∧
      List.Forall₂ CTxUndo.Alike records undos := by
  induction replays generalizing view with
  | nil => exact ⟨[], view, .nil, mirrors, .nil⟩
  | @cons tx rest _ _ _ _ _ values marked fresh later ih =>
      obtain ⟨left, record, here, mirrored, alike⟩ := mirrors.markSpent marked
      obtain ⟨records, final, again, same, others⟩ := ih (mirrored.addOutputs tx nHeight)
      refine ⟨record :: records, final, .cons values here ?_ again, same, .cons alike others⟩
      rw [← (mirrored tx.hash).isPruned_eq]
      exact fresh

end Replays

/-! ## Disconnecting -/

namespace CoinsMap.Mirrors

variable {view current : CoinsMap}

/-- Records that are alike put the same back. -/
theorem apply_eq {undo found : CTxInUndo} (alike : undo.Alike found) (n : Nat) (coins : CCoins) :
    found.apply n coins = undo.apply n coins := by
  obtain ⟨stake, rfl⟩ := alike
  rfl

/-- **An input is put back**, and no mismatch is reported. -/
theorem apply (formed : view.WellFormed) {txid : Uint256} {n : Nat} {coins : CCoins}
    {undo found : CTxInUndo} (spends : (view txid).spend n = some (coins, undo))
    (mirrors : Mirrors (view.modifyCoins txid coins) current) (alike : undo.Alike found)
    (clean : (found.apply n (current txid)).2 = true) :
    Mirrors view (current.modifyCoins txid (found.apply n (current txid)).1) := by
  have formedCoins := (formed txid).spend spends
  have here := mirrors txid
  rw [modifyCoins_self, formedCoins.cleanup_eq] at here
  rw [apply_eq alike] at clean ⊢
  have restored : ∃ stake, (undo.apply n (current txid)).1 =
      { view txid with fCoinStake := stake } := by
    cases last : coins.isPruned with
    | true =>
        have pruned : (current txid).isPruned = true := here.isPruned_eq.trans last
        by_cases height : (view txid).nHeight = 0
        · rw [CTxInUndo.apply_of_last_zero (formed txid) spends last pruned height] at clean
          cases clean
        · rw [CTxInUndo.apply_of_last (formed txid) spends last pruned height]
          exact ⟨false, rfl⟩
    | false =>
        rcases here with ⟨pruned, -⟩ | ⟨stake, same⟩
        · rw [last] at pruned
          cases pruned
        · rw [same, CTxInUndo.apply_of_remaining stake (formed txid) spends last]
          exact ⟨stake, rfl⟩
  obtain ⟨stake, same⟩ := restored
  intro entry
  by_cases other : entry = txid
  · subst other
    rw [modifyCoins_self, same]
    refine Or.inr ⟨stake, ?_⟩
    have kept := (formed entry).cleanup_eq
    exact congrArg (fun coins : CCoins => { coins with fCoinStake := stake }) kept
  · rw [modifyCoins_of_ne _ _ other]
    have same := mirrors entry
    rwa [modifyCoins_of_ne _ _ other] at same

/-- Restoring the inputs gives the view before. -/
theorem restoreInputs {vin : List CTxIn} {after : CoinsMap} {undos found : List CTxInUndo}
    {state : DisconnectState} (formed : view.WellFormed)
    (spends : CoinsMap.spendInputs vin view = some (after, undos))
    (mirrors : Mirrors after state.view) (alike : List.Forall₂ CTxInUndo.Alike undos found)
    (clean : (ConnectContext.restoreInputs (vin.zip found) state).fClean = true) :
    Mirrors view (ConnectContext.restoreInputs (vin.zip found) state).view := by
  induction vin generalizing view undos found with
  | nil =>
      cases spends
      exact mirrors
  | cons txin rest ih =>
      obtain ⟨coins, undo, others, first, remaining, rfl⟩ := spendInputs_cons spends
      cases alike with
      | cons same others =>
          rw [List.zip_cons_cons] at clean ⊢
          obtain ⟨cleanRest, expected⟩ := Bool.and_eq_true_iff.mp clean
          have formedCoins := (formed txin.prevout.hash).spend first
          have later := ih (formed.modifyCoins _ formedCoins) remaining others cleanRest
          exact later.apply formed first same expected

/-- The outputs of a transaction are taken away. -/
theorem removeOutputs {tx : CTransaction} {nHeight : Int} {state : DisconnectState}
    (fresh : (view tx.hash).isPruned = true)
    (mirrors : Mirrors (CoinsMap.addOutputs tx nHeight view) state.view) :
    Mirrors view (ConnectContext.removeOutputs nHeight tx state).view := by
  intro entry
  by_cases same : entry = tx.hash
  · subst same
    refine Or.inl ⟨fresh, ?_⟩
    show (state.view.modifyCoins tx.hash CCoins.clear tx.hash).isPruned = true
    rw [modifyCoins_self]
    rfl
  · have kept := mirrors entry
    rw [CoinsMap.addOutputs, modifyCoins_of_ne _ _ same] at kept
    show (view entry).Alike (state.view.modifyCoins tx.hash CCoins.clear entry)
    rwa [modifyCoins_of_ne _ _ same]

end CoinsMap.Mirrors

end GiantCore
