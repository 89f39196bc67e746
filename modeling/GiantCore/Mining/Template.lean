import GiantCore.Coins.Origins
import GiantCore.Mempool.Consistency
import GiantCore.Mining.Selection

/-! # The consistency of block templates

A list of transactions for a block is consistent when no output and no serial is spent twice,
every output that is spent is there, and none is one of the invalid ones. Transactions of the
pool are tested one by one for this, but four things are not looked at:

- The coinstake is not applied to the view. A transaction of the pool that spends an output or
  a serial of the coinstake is added all the same.
- The coinstake itself is taken as the wallet made it.
- The inputs of a transaction with zerocoin spends that are no zerocoin spends are not looked
  up.
- An invalid input is looked for among inputs that are in the coins of the tip. A transaction
  that waits for another one when its invalid input is found goes on waiting, and is added in
  the end.
-/

namespace GiantCore

/-- The outpoints of the inputs that are no zerocoin spends. -/
def CTransaction.ordinaryInputs (tx : CTransaction) : List COutPoint :=
  if tx.isCoinBase then []
  else (tx.vin.filter fun txin => !txin.isZerocoinSpend).map CTxIn.prevout

/-- The output is made by one of the transactions. -/
def CreatedBy (txs : List CTransaction) (out : COutPoint) : Prop :=
  ∃ tx ∈ txs, tx.hash = out.hash ∧ ∃ created, tx.vout[out.n.toNat]? = some created ∧
    created.isNull = false

namespace MinerContext

variable (ctx : MinerContext)

/-- The serials that a transaction spends. -/
def serials (tx : CTransaction) : List CBigNum :=
  (tx.vin.filter CTxIn.isZerocoinSpend).filterMap ctx.chain.validation.spendSerial

variable (state : ChainState)

/-- An output of the tip's coins. -/
def Available (out : COutPoint) : Prop :=
  (state.coinsTip.coins out.hash).isAvailable out.n.toNat = true

/-- **A consistent list of transactions.** -/
structure Consistent (vtx : List CTransaction) : Prop where
  once : (vtx.flatMap CTransaction.ordinaryInputs).Nodup
  serialsOnce : (vtx.flatMap ctx.serials).Nodup
  available : ∀ i tx, vtx[i]? = some tx → ∀ out ∈ tx.ordinaryInputs,
    Available state out ∨ CreatedBy (vtx.take i) out
  valid : ∀ tx ∈ vtx, ∀ out ∈ tx.ordinaryInputs, ctx.containsOutPoint out = false

/-- A transaction of the pool that a block may have. -/
def PoolCandidate (pool : TxPool) (tx : CTransaction) : Prop :=
  (∃ hash, pool.lookup hash = some tx) ∧ ctx.isCandidate state tx = true

/-- **The inputs that are not looked at are in order.** The coinstake spends outputs that are
there and valid, each once, and shares no input with the candidates. Candidates with zerocoin
spends have other inputs only if these are there and valid. Where a candidate has an invalid
input, it and those before it are outputs of the chain. -/
structure Regular (pool : TxPool) (coinStake : List CTransaction) : Prop where
  stakeOnce : (coinStake.flatMap CTransaction.ordinaryInputs).Nodup
  stakeSerials : (coinStake.flatMap ctx.serials).Nodup
  stakeAvailable : ∀ stake ∈ coinStake, ∀ out ∈ stake.ordinaryInputs,
    Available state out ∧ ctx.containsOutPoint out = false
  apart : ∀ stake ∈ coinStake, ∀ tx, ctx.PoolCandidate state pool tx →
    (∀ out ∈ stake.ordinaryInputs, out ∉ tx.ordinaryInputs) ∧
      ∀ serial ∈ ctx.serials stake, serial ∉ ctx.serials tx
  mixed : ∀ tx, ctx.PoolCandidate state pool tx → tx.hasZerocoinSpendInputs = true →
    ∀ out ∈ tx.ordinaryInputs, Available state out ∧ ctx.containsOutPoint out = false
  invalid : ∀ tx, ctx.PoolCandidate state pool tx → tx.hasZerocoinSpendInputs = false →
    ∀ before txin after, tx.vin = before ++ txin :: after →
      (∀ other ∈ before, ctx.containsOutPoint other.prevout = false) →
      ctx.containsOutPoint txin.prevout = true →
      ∀ other ∈ before ++ [txin], (state.coinsTip.coins other.prevout.hash).isPruned = false

end MinerContext

/-! ## Collecting -/

namespace MinerContext

variable {ctx : MinerContext} {state : ChainState} {pool : TxPool}

/-- The loop over the inputs stops at an invalid one. -/
theorem scanInputs_of_invalid {before after : List CTxIn} {txin : CTxIn}
    {setDependsOn : List Uint256}
    (valid : ∀ other ∈ before, ctx.containsOutPoint other.prevout = false)
    (invalid : ctx.containsOutPoint txin.prevout = true)
    (here : ∀ other ∈ before ++ [txin],
      (state.coinsTip.coins other.prevout.hash).isPruned = false) :
    ctx.scanInputs state pool (before ++ txin :: after) setDependsOn = .invalid setDependsOn := by
  induction before with
  | nil =>
      have own := here txin (by simp)
      simp [scanInputs, own, invalid]
  | cons first rest ih =>
      rw [List.forall_mem_cons] at valid
      have own := here first (by simp)
      have later := ih valid.2 fun other member => here other (List.mem_cons_of_mem _ member)
      simpa [scanInputs, own, valid.1] using later

/-- The transaction went to the queue or to the orphans. -/
def Collected (ctx : MinerContext) (state : ChainState) (pool : TxPool) (tx : CTransaction) :
    Prop :=
  ctx.isCandidate state tx = true ∧ (tx.hasZerocoinSpendInputs = false →
    ctx.scanInputs state pool tx.vin [] ≠ .invalid [])

/-- One transaction of the pool is collected, or not. -/
theorem collectTx_eq_ok {queue after : MinerQueue} {tx : CTransaction}
    (went : ctx.collectTx state pool queue tx = .ok after) :
    after = queue ∨
      (after.pending.Perm (queue.pending ++ [tx]) ∧ ctx.Collected state pool tx) := by
  have front : ({ queue with vecPriority := queue.vecPriority ++ [tx] } : MinerQueue).pending.Perm
      (queue.pending ++ [tx]) := by
    unfold MinerQueue.pending
    dsimp only
    rw [List.append_assoc, List.append_assoc]
    exact (List.perm_append_comm).append_left _
  have waits : ∀ setDependsOn, ({ queue with
      vOrphan := queue.vOrphan ++ [⟨tx, setDependsOn⟩] } : MinerQueue).pending.Perm
        (queue.pending ++ [tx]) := by
    intro setDependsOn
    unfold MinerQueue.pending
    dsimp only
    rw [List.map_append, List.append_assoc]
    exact List.Perm.refl _
  unfold collectTx at went
  split at went
  · cases went
    exact Or.inl rfl
  · rename_i candidate
    have candidate : ctx.isCandidate state tx = true := by simpa using candidate
    split at went
    · rename_i spends
      cases went
      exact Or.inr ⟨front, candidate, fun none => absurd (spends.symm.trans none) (by simp)⟩
    · split at went
      · rename_i scanned
        cases went
        exact Or.inr ⟨front, candidate, fun _ => by simp [scanned]⟩
      · rename_i scanned
        cases went
        exact Or.inr ⟨waits _, candidate, fun _ => by simp [scanned]⟩
      · cases went
        exact Or.inl rfl
      · cases went
      · cases went
        exact Or.inl rfl
      · rename_i setDependsOn nonempty scanned
        cases went
        refine Or.inr ⟨waits _, candidate, fun _ => ?_⟩
        rw [scanned]
        intro same
        cases same
        exact nonempty rfl

/-- **The loop over the pool** collects transactions of it, each once. -/
theorem collect_foldlM {txs : List CTransaction} {queue after : MinerQueue}
    (went : txs.foldlM (ctx.collectTx state pool) queue = .ok after) :
    ∃ taken, taken.Sublist txs ∧ after.pending.Perm (queue.pending ++ taken) ∧
      ∀ tx ∈ taken, ctx.Collected state pool tx := by
  induction txs generalizing queue with
  | nil =>
      cases went
      exact ⟨[], List.Sublist.slnil, by simp, by simp⟩
  | cons tx rest ih =>
      rw [List.foldlM_cons, Foundation.Checks.bind_eq_ok] at went
      obtain ⟨next, first, later⟩ := went
      obtain ⟨taken, inside, perm, collected⟩ := ih later
      rcases collectTx_eq_ok first with rfl | ⟨added, here⟩
      · exact ⟨taken, inside.cons _, perm, collected⟩
      · refine ⟨tx :: taken, inside.cons_cons _, ?_, List.forall_mem_cons.mpr ⟨here, collected⟩⟩
        refine perm.trans ((added.append_right taken).trans ?_)
        rw [List.append_assoc]
        exact List.Perm.refl _

/-! ## One round of the selection -/

/-- A transaction without zerocoin spends has no serials. -/
theorem serials_of_plain {tx : CTransaction} (plain : tx.hasZerocoinSpendInputs = false) :
    ctx.serials tx = [] := by
  have none : tx.vin.filter CTxIn.isZerocoinSpend = [] :=
    List.filter_eq_nil_iff.mpr (List.any_eq_false.mp plain)
  rw [serials, none, List.filterMap_nil]

theorem serials_of_isCoinBase {tx : CTransaction} (isCoinBase : tx.isCoinBase = true) :
    ctx.serials tx = [] := by
  refine serials_of_plain ?_
  unfold CTransaction.isCoinBase at isCoinBase
  split at isCoinBase
  · rw [Bool.and_eq_true, Bool.not_eq_true', CTransaction.containsZerocoins,
      Bool.or_eq_false_iff] at isCoinBase
    exact isCoinBase.2.1
  · cases isCoinBase

/-- The serials of inputs are collected until one is known. -/
theorem scanSerials_eq_some {vBlockSerials vTxSerials after : List CBigNum} {vin : List CTxIn}
    {fDoubleSerial : Bool}
    (went : ctx.scanSerials vBlockSerials vin vTxSerials = some (after, fDoubleSerial)) :
    ∃ found, after = vTxSerials ++ found ∧ (fDoubleSerial = false →
      found = (vin.filter CTxIn.isZerocoinSpend).filterMap ctx.chain.validation.spendSerial ∧
        found.Nodup ∧ ∀ serial ∈ found, serial ∉ vTxSerials) := by
  induction vin generalizing vTxSerials with
  | nil =>
      cases went
      exact ⟨[], by simp, fun _ => by simp⟩
  | cons txin rest ih =>
      unfold scanSerials at went
      split at went
      · rename_i ordinary
        have ordinary : txin.isZerocoinSpend = false := by simpa using ordinary
        rw [List.filter_cons_of_neg (by simp [ordinary])]
        exact ih went
      · rename_i spends
        have spends : txin.isZerocoinSpend = true := by simpa using spends
        split at went
        · cases went
        · rename_i serial read
          split at went
          · cases went
            exact ⟨[], by simp, fun single => by cases single⟩
          · rename_i fresh
            obtain ⟨found, rfl, single⟩ := ih went
            have unknown : serial ∉ vTxSerials := by
              intro member
              apply fresh
              rw [Bool.or_eq_true]
              exact Or.inr (List.contains_iff_mem.mpr member)
            refine ⟨serial :: found, by simp, fun none => ?_⟩
            obtain ⟨same, distinct, apart⟩ := single none
            rw [List.filter_cons_of_pos spends, List.filterMap_cons_some read, ← same]
            refine ⟨rfl, List.nodup_cons.mpr ⟨?_, distinct⟩, ?_⟩
            · intro again
              exact apart serial again (by simp)
            · intro other member
              rcases List.mem_cons.mp member with rfl | later
              · exact unknown
              · intro known
                exact apart other later (List.mem_append_left _ known)

theorem checkSerials_eq_some {vBlockSerials vTxSerials after : List CBigNum} {tx : CTransaction}
    {fDoubleSerial : Bool}
    (went : ctx.checkSerials state tx vBlockSerials vTxSerials = some (after, fDoubleSerial)) :
    ∃ found, after = vTxSerials ++ found ∧ (fDoubleSerial = false →
      found = ctx.serials tx ∧ found.Nodup ∧ ∀ serial ∈ found, serial ∉ vTxSerials) := by
  unfold checkSerials at went
  split at went
  · rename_i plain
    have plain : tx.hasZerocoinSpendInputs = false := by simpa using plain
    cases went
    exact ⟨[], by simp, fun _ => by simp [serials_of_plain plain]⟩
  · split at went
    · cases went
      exact ⟨[], by simp, fun single => by cases single⟩
    · exact scanSerials_eq_some went

/-- What a round does: it leaves the list as it is, or adds the transaction. -/
theorem selectTx_eq_ok {current next : Selection} {tx : CTransaction}
    (went : ctx.selectTx state current tx = .ok next) :
    (next.view = current.view ∧ next.vtx = current.vtx ∧ next.queue = current.queue ∧
      ∃ found, next.vTxSerials = current.vTxSerials ++ found) ∨
    (current.view.haveInputs tx = true ∧
      (∃ undo, current.view.updateCoins tx (ctx.nHeight state) = some (next.view, undo)) ∧
      next.vtx = current.vtx ++ [tx] ∧ next.queue = current.queue.release tx.hash ∧
      next.vTxSerials = current.vTxSerials ++ ctx.serials tx ∧ (ctx.serials tx).Nodup ∧
      ∀ serial ∈ ctx.serials tx, serial ∉ current.vTxSerials) := by
  have same : ∀ {after : Selection}, after.view = current.view → after.vtx = current.vtx →
      after.queue = current.queue → after.vTxSerials = current.vTxSerials →
      after.view = current.view ∧ after.vtx = current.vtx ∧ after.queue = current.queue ∧
        ∃ found, after.vTxSerials = current.vTxSerials ++ found :=
    fun view vtx queue serials => ⟨view, vtx, queue, [], by rw [serials, List.append_nil]⟩
  unfold selectTx at went
  dsimp only at went
  split at went
  · cases went
    exact Or.inl (same rfl rfl rfl rfl)
  · split at went
    · cases went
      exact Or.inl (same rfl rfl rfl rfl)
    · split at went
      · cases went
        exact Or.inl (same rfl rfl rfl rfl)
      · split at went
        · cases went
          exact Or.inl (same rfl rfl rfl rfl)
        · rename_i inputs
          split at went
          · cases went
          · rename_i vTxSerials fDoubleSerial checked
            obtain ⟨found, rfl, single⟩ := checkSerials_eq_some checked
            split at went
            · cases went
              exact Or.inl ⟨rfl, rfl, rfl, found, rfl⟩
            · rename_i notDouble
              obtain ⟨rfl, distinct, fresh⟩ := single (Bool.not_eq_true _ ▸ notDouble)
              split at went
              · cases went
                exact Or.inl ⟨rfl, rfl, rfl, _, rfl⟩
              · split at went
                · cases went
                  exact Or.inl ⟨rfl, rfl, rfl, _, rfl⟩
                · split at went
                  · cases went
                  · rename_i view undo updated
                    cases went
                    refine Or.inr ⟨by simpa using inputs, ⟨undo, updated⟩, rfl, rfl, rfl, distinct,
                      fresh⟩

/-! ## The whole selection -/

/-- A transaction that may be taken: it is in the pool, and its inputs are valid. -/
structure Takeable (ctx : MinerContext) (state : ChainState) (pool : TxPool) (tx : CTransaction) :
    Prop where
  held : pool.lookup tx.hash = some tx
  candidate : ctx.isCandidate state tx = true
  valid : ∀ out ∈ tx.ordinaryInputs, ctx.containsOutPoint out = false

/-- **What holds between the rounds**, where `chosen` are the transactions that were added. -/
structure Selecting (ctx : MinerContext) (state : ChainState) (pool : TxPool)
    (first chosen : List CTransaction) (current : Selection) : Prop where
  vtx : current.vtx = first ++ chosen
  takeable : ∀ tx ∈ chosen ++ current.queue.pending, ctx.Takeable state pool tx
  distinct : ((chosen ++ current.queue.pending).map CTransaction.hash).Nodup
  origins : current.view.ComesFrom fun txid n out =>
    (state.coinsTip.coins txid).vout[n]? = some out ∨
      ∃ tx ∈ chosen, tx.hash = txid ∧ tx.vout[n]? = some out
  serialsOnce : (chosen.flatMap ctx.serials).Nodup
  known : ∀ serial ∈ chosen.flatMap ctx.serials, serial ∈ current.vTxSerials
  available : ∀ i tx, chosen[i]? = some tx → ∀ out ∈ tx.ordinaryInputs,
    Available state out ∨ CreatedBy (chosen.take i) out

/-- A candidate is no coinbase. -/
theorem notCoinBase_of_isCandidate {tx : CTransaction}
    (candidate : ctx.isCandidate state tx = true) : tx.isCoinBase = false := by
  unfold isCandidate at candidate
  cases coinBase : tx.isCoinBase with
  | false => rfl
  | true => simp [coinBase] at candidate

/-- The inputs of a transaction without zerocoin spends. -/
theorem ordinaryInputs_of_plain {tx : CTransaction} (notCoinBase : tx.isCoinBase = false)
    (plain : tx.hasZerocoinSpendInputs = false) : tx.ordinaryInputs = tx.vin.map CTxIn.prevout := by
  have all : tx.vin.filter (fun txin => !txin.isZerocoinSpend) = tx.vin := by
    rw [List.filter_eq_self]
    intro txin member
    rw [CTransaction.hasZerocoinSpendInputs, List.any_eq_false] at plain
    simpa using plain txin member
  rw [CTransaction.ordinaryInputs, if_neg (by simp [notCoinBase]), all]

/-- An output that is in the view is one of the tip's coins or of a transaction added. -/
theorem Selecting.available_of_view {first chosen : List CTransaction} {current : Selection}
    (selecting : ctx.Selecting state pool first chosen current) {out : COutPoint}
    (here : (current.view out.hash).isAvailable out.n.toNat = true) :
    Available state out ∨ CreatedBy chosen out := by
  obtain ⟨output, found, full, noMint⟩ := CCoins.isAvailable_iff.mp here
  rcases selecting.origins _ _ _ found full with tip | ⟨tx, member, same, made⟩
  · exact Or.inl (CCoins.isAvailable_iff.mpr ⟨output, tip, full, noMint⟩)
  · exact Or.inr ⟨tx, member, same, output, made, full⟩

/-- The inputs of a transaction that passes `HaveInputs`. -/
theorem Selecting.inputs_available {first chosen : List CTransaction} {current : Selection}
    (selecting : ctx.Selecting state pool first chosen current) {coinStake : List CTransaction}
    (regular : ctx.Regular state pool coinStake) {tx : CTransaction}
    (takeable : ctx.Takeable state pool tx) (inputs : current.view.haveInputs tx = true) :
    ∀ out ∈ tx.ordinaryInputs, Available state out ∨ CreatedBy chosen out := by
  intro out member
  have notCoinBase := notCoinBase_of_isCandidate takeable.candidate
  cases spends : tx.hasZerocoinSpendInputs with
  | true =>
      exact Or.inl (regular.mixed tx ⟨⟨_, takeable.held⟩, takeable.candidate⟩ spends out member).1
  | false =>
      rw [ordinaryInputs_of_plain notCoinBase spends] at member
      obtain ⟨txin, present, rfl⟩ := List.mem_map.mp member
      unfold CoinsMap.haveInputs at inputs
      rw [notCoinBase, spends] at inputs
      exact selecting.available_of_view (List.all_eq_true.mp inputs txin present)

/-- **One round** keeps what holds between the rounds. -/
theorem Selecting.selectTx {first chosen rest : List CTransaction} {current next : Selection}
    {tx : CTransaction} (selecting : ctx.Selecting state pool first chosen current)
    {coinStake : List CTransaction} (regular : ctx.Regular state pool coinStake)
    (front : current.queue.vecPriority.Perm (tx :: rest))
    (went : ctx.selectTx state
      { current with queue := { current.queue with vecPriority := rest } } tx = .ok next) :
    ∃ chosen, ctx.Selecting state pool first chosen next := by
  have pending : current.queue.pending.Perm
      (tx :: ({ current.queue with vecPriority := rest } : MinerQueue).pending) :=
    front.append_right _
  have taken : ctx.Takeable state pool tx :=
    selecting.takeable tx (List.mem_append_right _ (pending.mem_iff.mpr List.mem_cons_self))
  rcases selectTx_eq_ok went with ⟨view, vtx, queue, found, serials⟩ |
    ⟨inputs, ⟨undo, updated⟩, vtx, queue, serials, single, fresh⟩
  · refine ⟨chosen, ?_⟩
    have fewer : (chosen ++ next.queue.pending).Sublist (chosen ++ tx :: next.queue.pending) :=
      (List.sublist_cons_self tx _).append_left _
    rw [queue] at fewer
    have same : (chosen ++ current.queue.pending).Perm (chosen ++ tx ::
        ({ current.queue with vecPriority := rest } : MinerQueue).pending) :=
      pending.append_left _
    refine ⟨by rw [vtx]; exact selecting.vtx, ?_, ?_, ?_, selecting.serialsOnce, ?_,
      selecting.available⟩
    · intro other member
      rw [queue] at member
      exact selecting.takeable other (same.mem_iff.mpr (fewer.mem member))
    · rw [queue]
      exact ((same.map _).nodup_iff.mp selecting.distinct).sublist (fewer.map _)
    · rw [view]
      exact selecting.origins
    · intro serial member
      rw [serials]
      exact List.mem_append_left _ (selecting.known serial member)
  · refine ⟨chosen ++ [tx], ?_⟩
    have moved : (chosen ++ [tx] ++ next.queue.pending).Perm
        (chosen ++ current.queue.pending) := by
      rw [List.append_assoc, queue]
      refine List.Perm.append_left _ (List.Perm.trans ?_ pending.symm)
      exact ((MinerQueue.pending_release _ _).cons tx)
    refine ⟨?_, ?_, ?_, ?_, ?_, ?_, ?_⟩
    · rw [vtx, ← List.append_assoc]
      exact congrArg (· ++ [tx]) selecting.vtx
    · intro other member
      exact selecting.takeable other (moved.mem_iff.mp member)
    · exact (moved.map _).nodup_iff.mpr selecting.distinct
    · obtain ⟨⟨spent, undone⟩, marked, result⟩ := Option.map_eq_some_iff.mp updated
      rw [← (Prod.mk.inj result).1]
      refine (selecting.origins.markSpent marked).mono ?_ |>.addOutputs ?_
      · rintro txid n out (tip | ⟨other, member, made⟩)
        · exact Or.inl tip
        · exact Or.inr ⟨other, List.mem_append_left _ member, made⟩
      · intro n out here
        exact Or.inr ⟨tx, by simp, rfl, here⟩
    · rw [List.flatMap_append, List.flatMap_singleton, List.nodup_append']
      refine ⟨selecting.serialsOnce, single, ?_⟩
      intro serial before own
      exact fresh serial own (selecting.known serial before)
    · intro serial member
      rw [List.flatMap_append, List.flatMap_singleton] at member
      rw [serials]
      rcases List.mem_append.mp member with before | own
      · exact List.mem_append_left _ (selecting.known serial before)
      · exact List.mem_append_right _ own
    · intro i other found out member
      by_cases inside : i < chosen.length
      · rw [List.getElem?_append_left inside] at found
        rw [List.take_append_of_le_length inside.le]
        exact selecting.available i other found out member
      · have last : i = chosen.length := by
          obtain ⟨bound, -⟩ := List.getElem?_eq_some_iff.mp found
          rw [List.length_append, List.length_singleton] at bound
          omega
        subst last
        rw [List.getElem?_append_right le_rfl, Nat.sub_self] at found
        cases found
        rw [List.take_left]
        exact selecting.inputs_available regular taken inputs out member

/-- **The loop** keeps it too. -/
theorem Selecting.selectLoop {rounds : Nat} {first chosen : List CTransaction}
    {current last : Selection} (selecting : ctx.Selecting state pool first chosen current)
    {coinStake : List CTransaction} (regular : ctx.Regular state pool coinStake)
    (went : ctx.selectLoop state rounds current = .ok last) :
    ∃ chosen, ctx.Selecting state pool first chosen last := by
  induction rounds generalizing chosen current with
  | zero =>
      cases went
      exact ⟨chosen, selecting⟩
  | succ rounds ih =>
      unfold MinerContext.selectLoop at went
      split at went
      · cases went
        exact ⟨chosen, selecting⟩
      · rename_i tx rest front
        rw [Foundation.Checks.bind_eq_ok] at went
        obtain ⟨next, step, later⟩ := went
        obtain ⟨more, selected⟩ := selecting.selectTx regular (takeFront_eq_some front) step
        exact ih selected later

/-! ## The list -/

section

variable (consistent : pool.Consistent state.coinsTip.coins)

include consistent

/-- The mark of an input that is no zerocoin spend. -/
theorem mark_of_getElem {tx : CTransaction} (held : pool.lookup tx.hash = some tx) {n : Nat}
    {txin : CTxIn} (found : tx.vin[n]? = some txin) (ordinary : txin.isZerocoinSpend = false) :
    pool.mapNextTx.lookup txin.prevout = some ⟨tx.hash, n⟩ :=
  (consistent.marks _ _).mpr ⟨tx, txin, held, found, ordinary, rfl⟩

theorem mark_of_ordinaryInput {tx : CTransaction} (held : pool.lookup tx.hash = some tx)
    {out : COutPoint} (member : out ∈ tx.ordinaryInputs) :
    ∃ n, pool.mapNextTx.lookup out = some ⟨tx.hash, n⟩ := by
  unfold CTransaction.ordinaryInputs at member
  split at member
  · cases member
  · obtain ⟨txin, kept, rfl⟩ := List.mem_map.mp member
    obtain ⟨present, ordinary⟩ := List.mem_filter.mp kept
    obtain ⟨n, found⟩ := List.mem_iff_getElem?.mp present
    exact ⟨n, mark_of_getElem consistent held found (by simpa using ordinary)⟩

/-- A transaction of the pool spends no output twice. -/
theorem nodup_ordinaryInputs {tx : CTransaction} (held : pool.lookup tx.hash = some tx) :
    tx.ordinaryInputs.Nodup := by
  unfold CTransaction.ordinaryInputs
  split
  · exact List.nodup_nil
  · have apart : tx.vin.Pairwise fun first second => first.isZerocoinSpend = false →
        second.isZerocoinSpend = false → first.prevout ≠ second.prevout := by
      rw [List.pairwise_iff_getElem]
      intro i j inFirst inSecond less ordinary ordinaryToo same
      have mark := mark_of_getElem consistent held (List.getElem?_eq_getElem inFirst) ordinary
      have other := mark_of_getElem consistent held (List.getElem?_eq_getElem inSecond) ordinaryToo
      rw [same, other] at mark
      cases mark
      exact absurd less (lt_irrefl _)
    rw [List.Nodup, List.pairwise_map]
    refine (List.Pairwise.and_mem.mp (apart.filter fun txin => !txin.isZerocoinSpend)).imp ?_
    rintro first second ⟨one, two, differ⟩
    exact differ (by simpa using (List.mem_filter.mp one).2)
      (by simpa using (List.mem_filter.mp two).2)

/-- Transactions of the pool spend no output twice. -/
theorem nodup_flatMap_ordinaryInputs {chosen : List CTransaction}
    (held : ∀ tx ∈ chosen, pool.lookup tx.hash = some tx)
    (distinct : (chosen.map CTransaction.hash).Nodup) :
    (chosen.flatMap CTransaction.ordinaryInputs).Nodup := by
  rw [List.nodup_flatMap]
  refine ⟨fun tx member => nodup_ordinaryInputs consistent (held tx member), ?_⟩
  have hashes : chosen.Pairwise fun first second => first.hash ≠ second.hash :=
    List.pairwise_map.mp distinct
  refine (List.Pairwise.and_mem.mp hashes).imp ?_
  rintro first second ⟨one, two, differ⟩ out inFirst inSecond
  obtain ⟨n, mark⟩ := mark_of_ordinaryInput consistent (held first one) inFirst
  obtain ⟨m, other⟩ := mark_of_ordinaryInput consistent (held second two) inSecond
  rw [mark, Option.some.injEq, CInPoint.mk.injEq] at other
  exact differ other.1

/-- What was collected from the pool may be taken. -/
theorem takeable_of_collect {coinStake : List CTransaction}
    (regular : ctx.Regular state pool coinStake) {queue : MinerQueue}
    (collected : ctx.collect state pool = .ok queue) :
    (∀ tx ∈ queue.pending, ctx.Takeable state pool tx) ∧
      (queue.pending.map CTransaction.hash).Nodup := by
  obtain ⟨taken, inside, perm, all⟩ := collect_foldlM collected
  rw [show ({} : MinerQueue).pending = [] from rfl, List.nil_append] at perm
  constructor
  · intro tx member
    have present := perm.mem_iff.mp member
    obtain ⟨entry, listed, rfl⟩ := List.mem_map.mp (inside.mem present)
    have held := TxPool.lookup_of_mem_inOrder consistent.hashes listed
    obtain ⟨candidate, scanned⟩ := all _ present
    refine ⟨held, candidate, ?_⟩
    have poolCandidate : ctx.PoolCandidate state pool entry.tx := ⟨⟨_, held⟩, candidate⟩
    cases spends : entry.tx.hasZerocoinSpendInputs with
    | true => exact fun out own => (regular.mixed _ poolCandidate spends out own).2
    | false =>
        -- the first invalid input would have kept the transaction from being collected
        rw [ordinaryInputs_of_plain (notCoinBase_of_isCandidate candidate) spends]
        intro out own
        obtain ⟨txin, present, rfl⟩ := List.mem_map.mp own
        by_contra invalid
        cases first : entry.tx.vin.find? fun other => ctx.containsOutPoint other.prevout with
        | none => exact invalid (by simpa using List.find?_eq_none.mp first txin present)
        | some other =>
            obtain ⟨bad, before, after, whole, fine⟩ := List.find?_eq_some_iff_append.mp first
            have fine : ∀ one ∈ before, ctx.containsOutPoint one.prevout = false :=
              fun one earlier => by simpa using fine one earlier
            have here := regular.invalid _ poolCandidate spends before other after whole fine bad
            apply scanned spends
            rw [whole]
            exact scanInputs_of_invalid fine bad here
  · have hashes := TxPool.nodup_inOrder consistent.hashes
    have sub := (inside.map CTransaction.hash)
    rw [List.map_map] at sub
    exact (perm.map _).nodup_iff.mpr (hashes.sublist sub)

/-- Before the first round. -/
theorem selecting_of_collect {coinStake first : List CTransaction}
    (regular : ctx.Regular state pool coinStake) {queue : MinerQueue}
    (collected : ctx.collect state pool = .ok queue) {fSortedByFee : Bool} :
    ctx.Selecting state pool first []
      { view := state.coinsTip.coins, vtx := first, queue, fSortedByFee } := by
  obtain ⟨takeable, distinct⟩ := takeable_of_collect consistent regular collected
  refine ⟨by simp, takeable, distinct, ?_, by simp, by simp, by simp⟩
  intro txid n out found full
  exact Or.inl found

/-- **The list is consistent** when the coinbase and the coinstake stand before what was
selected. -/
theorem Selecting.vtx_consistent {coinBase : CTransaction} {coinStake chosen : List CTransaction}
    {current : Selection} (isCoinBase : coinBase.isCoinBase = true)
    (regular : ctx.Regular state pool coinStake)
    (selecting : ctx.Selecting state pool (coinBase :: coinStake) chosen current) :
    ctx.Consistent state current.vtx := by
  have noInputs : coinBase.ordinaryInputs = [] := if_pos isCoinBase
  have noSerials : ctx.serials coinBase = [] := serials_of_isCoinBase isCoinBase
  have taken : ∀ tx ∈ chosen, ctx.Takeable state pool tx :=
    fun tx member => selecting.takeable tx (List.mem_append_left _ member)
  have candidate : ∀ tx ∈ chosen, ctx.PoolCandidate state pool tx :=
    fun tx member => ⟨⟨_, (taken tx member).held⟩, (taken tx member).candidate⟩
  have hashes : (chosen.map CTransaction.hash).Nodup := by
    have distinct := selecting.distinct
    rw [List.map_append] at distinct
    exact distinct.of_append_left
  rw [selecting.vtx]
  constructor
  · rw [List.flatMap_append, List.flatMap_cons, noInputs, List.nil_append, List.nodup_append']
    refine ⟨regular.stakeOnce, nodup_flatMap_ordinaryInputs consistent
      (fun tx member => (taken tx member).held) hashes, ?_⟩
    intro out ofStake ofChosen
    obtain ⟨stake, inStake, spends⟩ := List.mem_flatMap.mp ofStake
    obtain ⟨tx, member, again⟩ := List.mem_flatMap.mp ofChosen
    exact (regular.apart stake inStake tx (candidate tx member)).1 out spends again
  · rw [List.flatMap_append, List.flatMap_cons, noSerials, List.nil_append, List.nodup_append']
    refine ⟨regular.stakeSerials, selecting.serialsOnce, ?_⟩
    intro serial ofStake ofChosen
    obtain ⟨stake, inStake, spends⟩ := List.mem_flatMap.mp ofStake
    obtain ⟨tx, member, again⟩ := List.mem_flatMap.mp ofChosen
    exact (regular.apart stake inStake tx (candidate tx member)).2 serial spends again
  · intro i tx found out member
    by_cases inside : i < (coinBase :: coinStake).length
    · rw [List.getElem?_append_left inside] at found
      rcases List.mem_cons.mp (List.mem_of_getElem? found) with rfl | ofStake
      · rw [noInputs] at member
        cases member
      · exact Or.inl (regular.stakeAvailable tx ofStake out member).1
    · rw [not_lt] at inside
      rw [List.getElem?_append_right inside] at found
      rcases selecting.available _ tx found out member with tip | ⟨other, earlier, made⟩
      · exact Or.inl tip
      · refine Or.inr ⟨other, ?_, made⟩
        rw [List.take_append]
        exact List.mem_append_right _ earlier
  · intro tx member out spends
    rcases List.mem_append.mp member with atFirst | ofChosen
    · rcases List.mem_cons.mp atFirst with rfl | ofStake
      · rw [noInputs] at spends
        cases spends
      · exact (regular.stakeAvailable tx ofStake out spends).2
    · exact (taken tx ofChosen).valid out spends

end

/-- The coinstake that a block has. -/
def stakeOf (fProofOfStake : Bool) (coinStake : Option CTransaction) : List CTransaction :=
  if fProofOfStake then coinStake.toList else []

theorem firstTransactions_eq_ok {coinBase : CTransaction} {coinStake : Option CTransaction}
    {fProofOfStake : Bool} {vtx : List CTransaction}
    (went : firstTransactions coinBase coinStake fProofOfStake = .ok vtx) :
    vtx = coinBase :: stakeOf fProofOfStake coinStake := by
  cases fProofOfStake with
  | false =>
      cases went
      rfl
  | true =>
      cases coinStake with
      | none => cases went
      | some stake =>
          cases went
          rfl

/-- **What `CreateNewBlock` puts together is consistent** if the inputs that it does not look
at are in order. -/
theorem createNewBlock_consistent (ctx : MinerContext) (state : ChainState) (pool : TxPool)
    (fProofOfStake : Bool) (coinBase : CTransaction) (coinStake : Option CTransaction)
    (vtx : List CTransaction) (isCoinBase : coinBase.isCoinBase = true)
    (consistent : pool.Consistent state.coinsTip.coins)
    (regular : ctx.Regular state pool (stakeOf fProofOfStake coinStake))
    (made : ctx.createNewBlock state pool fProofOfStake coinBase coinStake = .ok vtx) :
    ctx.Consistent state vtx := by
  unfold createNewBlock at made
  rw [Foundation.Checks.bind_eq_ok] at made
  obtain ⟨first, atFirst, made⟩ := made
  rw [Foundation.Checks.bind_eq_ok] at made
  obtain ⟨queue, collected, made⟩ := made
  rw [Foundation.Checks.bind_eq_ok] at made
  obtain ⟨selected, looped, made⟩ := made
  cases made
  rw [firstTransactions_eq_ok atFirst] at looped
  obtain ⟨chosen, last⟩ :=
    (selecting_of_collect consistent regular collected).selectLoop regular looped
  exact last.vtx_consistent consistent isCoinBase regular

/-! ## A payment and a coinstake -/

/-- Two outputs that anyone may spend. -/
def openOutputs : CCoins where
  vout := [⟨COIN, [0x51], -10⟩, ⟨COIN, [0x51], -10⟩]
  nVersion := 1

/-- A payment with the first of them. -/
def openPayment : CTransaction where
  hash := 600
  vin := [{ prevout := ⟨500, 0⟩ }]
  vout := [⟨COIN / 2, [0x51], -10⟩]

/-- A coinstake with one of them. -/
def openStake (n : UInt32) : CTransaction where
  hash := 700
  vin := [{ prevout := ⟨500, n⟩ }]
  vout := [⟨0, [], -10⟩, ⟨COIN, [0x51], -10⟩]

/-- A node with these outputs. -/
def openState : ChainState :=
  { ChainState.regtest burningBlock with
    coinsTip := ⟨fun txid => if txid = 500 then openOutputs else CCoins.clear, 100⟩ }

/-- Its pool. -/
def openPool : TxPool := ({} : TxPool).addUnchecked ⟨openPayment, 100⟩

/-- Its limits; the payment has a good fee, but no priority. -/
def openMiner : MinerContext where
  chain := .regtest burningBlock
  nBlockMaxSize := 750000
  nBlockPrioritySize := 50000
  nBlockMinSize := 0
  front _ _ := 0
  allowFree _ := false
  isFree _ := false
  hasValidSerial _ := true
  verifyMandatory _ _ := true

theorem lookup_openPool {hash : Uint256} {tx : CTransaction} :
    openPool.lookup hash = some tx ↔ hash = 600 ∧ tx = openPayment := by
  unfold openPool
  rw [TxPool.lookup_addUnchecked]
  split
  · rename_i same
    rw [Option.some.injEq]
    exact ⟨fun paid => ⟨same, paid.symm⟩, fun here => here.2.symm⟩
  · rename_i different
    exact ⟨fun absent => (Option.some_ne_none _ absent.symm).elim,
      fun here => absurd here.1 different⟩

theorem consistent_openPool : openPool.Consistent openState.coinsTip.coins := by
  refine ⟨?_, ?_, ?_, rfl⟩
  · intro hash tx here
    obtain ⟨rfl, rfl⟩ := lookup_openPool.mp here
    rfl
  · intro out spender
    have marks : openPool.mapNextTx = (∅ : AList _).insert ⟨500, 0⟩ ⟨600, 0⟩ := rfl
    rw [marks]
    constructor
    · intro marked
      by_cases same : out = ⟨500, 0⟩
      · subst same
        rw [AList.lookup_insert] at marked
        cases marked
        exact ⟨openPayment, _, lookup_openPool.mpr ⟨rfl, rfl⟩, rfl, rfl, rfl⟩
      · rw [AList.lookup_insert_ne same] at marked
        cases marked
    · obtain ⟨ptx, n⟩ := spender
      rintro ⟨tx, txin, here, found, -, rfl⟩
      obtain ⟨same, rfl⟩ := lookup_openPool.mp here
      obtain rfl : ptx = 600 := same
      cases n with
      | zero =>
          cases found
          exact AList.lookup_insert _
      | succ m => cases found
  · intro hash tx here txin member _
    obtain ⟨rfl, rfl⟩ := lookup_openPool.mp here
    rw [List.mem_singleton.mp member]
    exact Or.inr (by decide)

theorem regular_openStake : openMiner.Regular openState openPool [openStake 1] := by
  have only : ∀ tx, openMiner.PoolCandidate openState openPool tx → tx = openPayment := by
    rintro tx ⟨⟨hash, held⟩, -⟩
    exact (lookup_openPool.mp held).2
  refine ⟨by decide, by decide, ?_, ?_, ?_, ?_⟩
  · unfold Available
    decide
  · intro stake ofStake tx candidate
    rw [only tx candidate, List.mem_singleton.mp ofStake]
    decide
  · intro tx candidate spends
    rw [only tx candidate] at spends
    cases spends
  · intro tx _ _ before txin after _ _ invalid
    cases invalid

theorem createNewBlock_consistent_openStake :
    openMiner.createNewBlock openState openPool true (regtestCoinBase 1) (some (openStake 1)) =
      .ok [regtestCoinBase 1, openStake 1, openPayment] ∧
    openMiner.Consistent openState [regtestCoinBase 1, openStake 1, openPayment] := by
  have made : openMiner.createNewBlock openState openPool true (regtestCoinBase 1)
      (some (openStake 1)) = .ok [regtestCoinBase 1, openStake 1, openPayment] := by
    decide +kernel
  exact ⟨made, createNewBlock_consistent openMiner openState openPool true (regtestCoinBase 1)
    (some (openStake 1)) _ (by decide) consistent_openPool regular_openStake made⟩

/-- **A payment spends what the coinstake spends**, and both are in the list. -/
theorem not_createNewBlock_consistent_shared :
    ¬ ∀ (ctx : MinerContext) (state : ChainState) (pool : TxPool) (fProofOfStake : Bool)
      (coinBase : CTransaction) (coinStake : Option CTransaction) (vtx : List CTransaction),
      coinBase.isCoinBase = true → pool.Consistent state.coinsTip.coins →
      ctx.createNewBlock state pool fProofOfStake coinBase coinStake = .ok vtx →
      ctx.Consistent state vtx := by
  intro always
  have made : openMiner.createNewBlock openState openPool true (regtestCoinBase 1)
      (some (openStake 0)) = .ok [regtestCoinBase 1, openStake 0, openPayment] := by
    decide +kernel
  have consistent := always openMiner openState openPool true (regtestCoinBase 1)
    (some (openStake 0)) _ (by decide) consistent_openPool made
  exact absurd consistent.once (by decide)

end MinerContext

end GiantCore
