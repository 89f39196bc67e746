import GiantCore.Budget.Budget
import GiantCore.Masternode.BlockPayee
import GiantCore.Script.Script
import Mathlib.Algebra.Order.Ring.Int
import Mathlib.Tactic.Linarith

/-! # The coinstake transaction

`CWallet::CreateCoinStake` tries the inputs that can be staked one after the other and fills one
transaction object on the way. An attempt that fails after its kernel was found leaves the object
changed: without the lock of the spend cache its outputs stay, and without an input the marker goes.
`balanced_iff` says when the transaction is still a balanced coinstake of one input.
-/

namespace GiantCore

/-- `CENT`. -/
def CENT : CAmount := 1000000

/-- A transaction that is being built. -/
structure CMutableTransaction where
  vin : List CTxIn := []
  vout : List CTxOut := []
  deriving DecidableEq, Repr

namespace CScript

/-- The template of `TX_PUBKEY`: a public key and `OP_CHECKSIG`. -/
def solvePubKey (script : CScript) : Option Valtype := do
  let (_, key, rest) ← script.getOp
  if key.length < 33 ∨ 65 < key.length then none
  else if rest = [opCheckSig] then some key else none

/-- The template of `TX_PUBKEYHASH`. -/
def solvePubKeyHash (script : CScript) : Option Valtype :=
  match script with
  | 0x76 :: 0xa9 :: rest => do
      let (_, hash, rest) ← CScript.getOp rest
      if hash.length ≠ 20 then none
      else if rest = [0x88, opCheckSig] then some hash else none
  | _ => none

end CScript

/-- An input that `SelectStakeCoins` has found (`CGICStake`), and what happens when it is tried. -/
structure StakeAttempt where
  /-- The outpoint of the coin, and the coin. -/
  prevout : COutPoint
  coin : CTxOut
  /-- The wallet is locked or the node shuts down. -/
  stopped : Bool := false
  /-- The height of `GetIndexFrom`, if it finds an index. -/
  indexHeight : Option Int
  /-- The time of the kernel that `Stake` finds. -/
  kernelTime : Option Int
  /-- `TRY_LOCK(zgicTracker->cs_spendcache, fLocked)`. -/
  fLocked : Bool := true
  /-- `CreateTxIn`. -/
  txInCreated : Bool := true
  deriving DecidableEq, Repr

/-- What `CreateCoinStake` reads of the wallet and the node. -/
structure StakeWallet where
  node : NodeContext
  budget : CBudgetManager
  payments : CMasternodePayments
  mnodeman : CMasternodeMan
  nBalance : CAmount
  nReserveBalance : CAmount
  nStakeSplitThreshold : Nat := 2000
  /-- `GetMedianTimePast` of the tip. -/
  medianTimePast : Int
  /-- `GetKey` with the public key of the key. -/
  getKey : Valtype → Option CPubKey
  /-- `GetSerializeSize` of a transaction. -/
  getSerializeSize : CMutableTransaction → Nat
  /-- `SignSignature`: the signature script of the input. -/
  signSignature : CMutableTransaction → Option CScript

/-- How `CreateCoinStake` ends. -/
inductive StakeResult where
  /-- It returns true. -/
  | created (tx : CMutableTransaction)
  /-- It returns false. -/
  | failed
  /-- It accesses an output that is not there. -/
  | undefined
  deriving DecidableEq, Repr

namespace StakeWallet

variable (wallet : StakeWallet)

/-- `CGICStake::CreateTxOuts`: the script that the stake is paid to. -/
def stakeScript (attempt : StakeAttempt) : Option CScript :=
  match attempt.coin.scriptPubKey.solvePubKey with
  | some _ => some attempt.coin.scriptPubKey
  | none => do
      let keyID ← attempt.coin.scriptPubKey.solvePubKeyHash
      -- convert to pay to public key type
      let pubKey ← wallet.getKey keyID
      return CScript.pushBytes pubKey ++ [CScript.opCheckSig]

/-- `CGICStake::CreateTxOuts`: one output, or two if half of the total is above the threshold. -/
def createTxOuts (attempt : StakeAttempt) (nTotal : CAmount) : Option (List CTxOut) :=
  (wallet.stakeScript attempt).map fun scriptPubKey =>
    if nTotal.tdiv 2 > wallet.nStakeSplitThreshold * COIN then
      [⟨0, scriptPubKey, -10⟩, ⟨0, scriptPubKey, -10⟩]
    else [⟨0, scriptPubKey, -10⟩]

/-- The reward that is claimed for the block after the tip. -/
def nReward : CAmount := wallet.node.params.getBlockValue (wallet.node.height + 1)

/-- The staked value and the reward. -/
def credit (attempt : StakeAttempt) : CAmount := attempt.coin.nValue + wallet.nReward

/-- `FillBlockPayee`: the payments of a budget block or those to masternodes. The masternodes are
checked in the same way each time. -/
def fillBlockPayee (vout : List CTxOut) : List CTxOut × CAmount :=
  match wallet.node.tip with
  | none => (vout, 0)
  | some tip =>
      if wallet.node.isSporkActive .enableSuperblocks &&
          (wallet.budget.isBudgetPaymentBlock wallet.node (tip.nHeight + 1) wallet.mnodeman).2 then
        wallet.budget.fillBlockPayee wallet.node vout true
      else
        let filling := wallet.payments.fillBlockPayee wallet.node vout wallet.mnodeman
        (filling.vout, filling.nReward)

/-- The amounts of the stake outputs; nothing if there is no second output. -/
def setAmounts (nCredit : CAmount) (vout : List CTxOut) : Option (List CTxOut) :=
  match vout with
  | first :: second :: third :: rest =>
      if second.scriptPubKey = third.scriptPubKey then
        let half := (nCredit.tdiv 2).tdiv CENT * CENT
        some (first :: { second with nValue := half } ::
          { third with nValue := nCredit - half } :: rest)
      else some (first :: { second with nValue := nCredit } :: third :: rest)
  | [first, second] => some [first, { second with nValue := nCredit }]
  | _ => none

/-- The outputs of an attempt that finds a kernel in time. -/
def outputsOf (attempt : StakeAttempt) : Option (List CTxOut) := do
  let nHeight ← attempt.indexHeight
  if nHeight < 1 then none
  else
    let nTxNewTime ← attempt.kernelTime
    if nTxNewTime ≤ wallet.medianTimePast ∧ wallet.node.params.networkID ≠ .regtest then none
    else wallet.createTxOuts attempt (wallet.credit attempt)

/-- The input of an attempt. -/
def txInOf (attempt : StakeAttempt) : CTxIn := { prevout := attempt.prevout }

/-- The loop over the inputs, with the transaction so far. -/
def tryInputs : List StakeAttempt → CMutableTransaction → StakeResult
  | [], _ => .failed
  | attempt :: rest, txNew =>
      if attempt.stopped then .failed
      else match wallet.outputsOf attempt with
        | none => tryInputs rest txNew
        | some outputs =>
            let (vout, paid) := wallet.fillBlockPayee (txNew.vout ++ outputs)
            match setAmounts (wallet.credit attempt - paid) vout with
            | none => .undefined
            | some vout =>
                let txNew := { txNew with vout }
                if wallet.getSerializeSize txNew ≥ 750000 / 5 then .failed
                else if !attempt.fLocked then tryInputs rest txNew
                else if !attempt.txInCreated then tryInputs rest {}
                else .created { txNew with vin := txNew.vin ++ [txInOf attempt] }

/-- The mark of a coinstake. -/
def marker : CTxOut := ⟨0, [], -10⟩

/-- `CreateCoinStake`, with the inputs that are selected. -/
def createCoinStake (listInputs : List StakeAttempt) : StakeResult :=
  if wallet.nBalance > 0 ∧ wallet.nBalance ≤ wallet.nReserveBalance then .failed
  else match wallet.tryInputs listInputs { vout := [marker] } with
    | .created txNew =>
        match wallet.signSignature txNew with
        | none => .failed
        | some scriptSig =>
            .created { txNew with vin := txNew.vin.map fun txin => { txin with scriptSig } }
    | result => result

/-! ## What an attempt adds -/

variable {wallet}

/-- The payments of the next block. -/
def paidOutputs (wallet : StakeWallet) : List CTxOut := (wallet.fillBlockPayee []).1

/-- The worth of some outputs. -/
def worth (outputs : List CTxOut) : CAmount := (outputs.map CTxOut.nValue).sum

@[simp] theorem worth_append (first second : List CTxOut) :
    worth (first ++ second) = worth first + worth second := by
  rw [worth, List.map_append, List.sum_append]
  rfl

@[simp] theorem worth_cons (out : CTxOut) (outputs : List CTxOut) :
    worth (out :: outputs) = out.nValue + worth outputs := rfl

@[simp] theorem worth_nil : worth [] = 0 := rfl

/-- The payment of a budget is worth what is deducted. -/
theorem budget_fillBlockPayee_eq (node : NodeContext) (budget : CBudgetManager)
    (vout : List CTxOut) :
    budget.fillBlockPayee node vout true =
      (vout ++ (budget.fillBlockPayee node [] true).1,
        worth (budget.fillBlockPayee node [] true).1) := by
  unfold CBudgetManager.fillBlockPayee
  cases node.tip with
  | none => simp
  | some tip =>
      dsimp only
      rw [if_pos rfl, if_pos rfl]
      have cases := Foundation.RunningMax.scan_cases (fun finalized : CFinalizedBudget =>
        finalized.inRange (tip.nHeight + 1) &&
          (finalized.getBudgetPaymentByBlock (tip.nHeight + 1)).isSome)
        CFinalizedBudget.getVoteCount (0, none) budget.finalizedBudgets
      rcases cases with none | ⟨finalized, -, -, votes, found⟩
      · rw [none]
        simp
      · rw [found]
        dsimp only at votes ⊢
        rw [if_pos votes, if_pos votes]
        simp

/-- **An attempt pays the same outputs whatever is there**, and their worth is deducted. -/
theorem fillBlockPayee_eq (wallet : StakeWallet) (vout : List CTxOut) :
    wallet.fillBlockPayee vout = (vout ++ wallet.paidOutputs, worth wallet.paidOutputs) := by
  unfold paidOutputs fillBlockPayee
  cases found : wallet.node.tip with
  | none => simp
  | some tip =>
      dsimp only
      split
      · exact budget_fillBlockPayee_eq wallet.node wallet.budget vout
      · rw [CMasternodePayments.fillBlockPayee_vout wallet.node wallet.payments found vout,
          CMasternodePayments.fillBlockPayee_vout wallet.node wallet.payments found [],
          CMasternodePayments.fillBlockPayee_nReward wallet.node wallet.payments found vout,
          List.nil_append]
        rfl

/-- The script of a stake is not empty. -/
theorem stakeScript_ne_nil {attempt : StakeAttempt} {script : CScript}
    (made : wallet.stakeScript attempt = some script) : script ≠ [] := by
  unfold stakeScript at made
  cases solved : attempt.coin.scriptPubKey.solvePubKey with
  | some key =>
      rw [solved] at made
      cases made
      intro empty
      rw [empty] at solved
      cases solved
  | none =>
      rw [solved] at made
      cases hashed : attempt.coin.scriptPubKey.solvePubKeyHash with
      | none =>
          rw [hashed] at made
          cases made
      | some keyID =>
          rw [hashed] at made
          cases keyed : wallet.getKey keyID with
          | none => simp [keyed] at made
          | some pubKey =>
              simp only [keyed, Option.bind_eq_bind, Option.bind_some, Option.pure_def,
                Option.some.injEq] at made
              rw [← made]
              exact List.append_ne_nil_of_right_ne_nil _ (List.cons_ne_nil _ _)

/-- The outputs of an attempt are one or two to its script. -/
theorem outputsOf_eq_some {attempt : StakeAttempt} {outputs : List CTxOut}
    (made : wallet.outputsOf attempt = some outputs) :
    ∃ script, wallet.stakeScript attempt = some script ∧ script ≠ [] ∧
      (outputs = [⟨0, script, -10⟩] ∨ outputs = [⟨0, script, -10⟩, ⟨0, script, -10⟩]) := by
  unfold outputsOf at made
  cases height : attempt.indexHeight with
  | none => simp [height] at made
  | some nHeight =>
      cases kernel : attempt.kernelTime with
      | none =>
          simp only [height, kernel, Option.bind_eq_bind, Option.bind_some, Option.bind_none,
            ite_self, reduceCtorEq] at made
      | some nTxNewTime =>
          simp only [height, kernel, Option.bind_eq_bind, Option.bind_some] at made
          split at made
          · cases made
          · split at made
            · cases made
            · unfold createTxOuts at made
              obtain ⟨script, scripted, same⟩ := Option.map_eq_some_iff.mp made
              refine ⟨script, scripted, stakeScript_ne_nil scripted, ?_⟩
              rw [← same]
              split
              · exact Or.inr rfl
              · exact Or.inl rfl

/-! ## The loop -/

/-- The scripts that some outputs pay to. -/
def scripts (outputs : List CTxOut) : List CScript := outputs.map CTxOut.scriptPubKey

/-- The amounts are set without a change of the scripts. -/
theorem scripts_setAmounts {nCredit : CAmount} {vout result : List CTxOut}
    (set : setAmounts nCredit vout = some result) : scripts result = scripts vout := by
  unfold setAmounts at set
  split at set
  · split at set <;> cases set <;> rfl
  · cases set
    rfl
  · cases set

/-- The attempt creates outputs. -/
def reaches (wallet : StakeWallet) (attempt : StakeAttempt) : Bool :=
  (wallet.outputsOf attempt).isSome

/-- The attempt creates outputs and its input. -/
def completes (wallet : StakeWallet) (attempt : StakeAttempt) : Bool :=
  wallet.reaches attempt && attempt.fLocked && attempt.txInCreated

/-- Outputs that an attempt has been added to are more than the marker. -/
theorem scripts_append_ne {base outputs : List CTxOut} {attempt : StakeAttempt}
    (made : wallet.outputsOf attempt = some outputs) (paid : List CTxOut) :
    scripts (base ++ outputs ++ paid) ≠ [[]] := by
  obtain ⟨script, -, nonempty, outputs⟩ := outputsOf_eq_some made
  cases base with
  | nil => rcases outputs with rfl | rfl <;> simp [scripts, nonempty]
  | cons first rest => rcases outputs with rfl | rfl <;> simp [scripts]

theorem find?_cons_of_false {test : StakeAttempt → Bool} {first : StakeAttempt}
    {rest : List StakeAttempt} (fails : test first = false) :
    (first :: rest).find? test = rest.find? test :=
  List.find?_cons_of_neg (by rw [fails]; exact Bool.false_ne_true)

/-- The transaction of the loop comes from the first attempt that completes. It is added to the
transaction from before the loop if no attempt has failed after its outputs were created; else to
outputs that are not the marker alone. -/
theorem tryInputs_created {inputs : List StakeAttempt} {txNew tx : CMutableTransaction}
    (unspent : txNew.vin = []) (created : wallet.tryInputs inputs txNew = .created tx) :
    ∃ attempt outputs base,
      inputs.find? wallet.completes = some attempt ∧ wallet.outputsOf attempt = some outputs ∧
        tx.vin = [txInOf attempt] ∧
        setAmounts (wallet.credit attempt - worth wallet.paidOutputs)
          (base ++ outputs ++ wallet.paidOutputs) = some tx.vout ∧
        (inputs.find? wallet.reaches = some attempt ∧ base = txNew.vout ∨
          (∃ failed, inputs.find? wallet.reaches = some failed ∧
            (failed.fLocked && failed.txInCreated) = false) ∧ scripts base ≠ [[]]) := by
  induction inputs generalizing txNew with
  | nil => cases created
  | cons first rest ih =>
      unfold tryInputs at created
      cases stopped : first.stopped with
      | true => simp [stopped] at created
      | false =>
          simp only [stopped, Bool.false_eq_true, if_false] at created
          cases made : wallet.outputsOf first with
          | none =>
              have skips : wallet.reaches first = false := by simp [reaches, made]
              have fails : wallet.completes first = false := by simp [completes, skips]
              rw [made] at created
              rw [find?_cons_of_false skips, find?_cons_of_false fails]
              exact ih unspent created
          | some outputs =>
              have starts : wallet.reaches first = true := by simp [reaches, made]
              simp only [made, fillBlockPayee_eq] at created
              rw [List.find?_cons_of_pos starts]
              cases set : setAmounts (wallet.credit first - worth wallet.paidOutputs)
                  (txNew.vout ++ outputs ++ wallet.paidOutputs) with
              | none =>
                  rw [set] at created
                  cases created
              | some vout =>
                  have stale : scripts vout ≠ [[]] := by
                    rw [scripts_setAmounts set]
                    exact scripts_append_ne made _
                  simp only [set] at created
                  split at created
                  · cases created
                  · split at created
                    · rename_i unlocked
                      have unlocked : first.fLocked = false := by simpa using unlocked
                      have fails : wallet.completes first = false := by
                        simp [completes, unlocked]
                      obtain ⟨attempt, outputs, base, found, made, spent, set, start⟩ :=
                        ih (show ({ txNew with vout } : CMutableTransaction).vin = [] from unspent)
                          created
                      refine ⟨attempt, outputs, base,
                        by rw [find?_cons_of_false fails, found], made, spent, set,
                        Or.inr ⟨⟨first, rfl, by rw [unlocked]; rfl⟩, ?_⟩⟩
                      rcases start with ⟨-, same⟩ | ⟨-, differ⟩
                      · rwa [same]
                      · exact differ
                    · rename_i locked
                      have locked : first.fLocked = true := by simpa using locked
                      split at created
                      · rename_i inputless
                        have inputless : first.txInCreated = false := by simpa using inputless
                        have fails : wallet.completes first = false := by
                          simp [completes, inputless]
                        obtain ⟨attempt, outputs, base, found, made, spent, set, start⟩ :=
                          ih rfl created
                        refine ⟨attempt, outputs, base,
                          by rw [find?_cons_of_false fails, found], made, spent, set,
                          Or.inr ⟨⟨first, rfl, by rw [locked, inputless]; rfl⟩, ?_⟩⟩
                        rcases start with ⟨-, same⟩ | ⟨-, differ⟩
                        · rw [same]
                          simp [scripts]
                        · exact differ
                      · rename_i entered
                        have entered : first.txInCreated = true := by simpa using entered
                        have done : wallet.completes first = true := by
                          simp [completes, starts, locked, entered]
                        cases created
                        rw [List.find?_cons_of_pos done]
                        exact ⟨first, outputs, txNew.vout, rfl, made, by simp [unspent], set,
                          Or.inl ⟨rfl, rfl⟩⟩

/-! ## When the coinstake is balanced -/

/-- A balanced coinstake of an attempt: its input alone, the marker, the outputs of the attempt and
the payments of the block, and the outputs are worth the staked value and the reward. -/
structure Balanced (wallet : StakeWallet) (attempt : StakeAttempt) (tx : CMutableTransaction) :
    Prop where
  vin : ∃ scriptSig, tx.vin = [{ txInOf attempt with scriptSig }]
  vout : ∃ outputs stakes, wallet.outputsOf attempt = some outputs ∧
    scripts stakes = scripts outputs ∧ tx.vout = marker :: stakes ++ wallet.paidOutputs
  worth : worth tx.vout = wallet.credit attempt

/-- The first payment of the block stands where a second stake output would and has its script. The
amounts of a divided stake then replace its own, which goes unseen if there is nothing to pay. -/
def PaymentTaken (wallet : StakeWallet) (attempt : StakeAttempt) : Prop :=
  ∃ stake payment rest, wallet.outputsOf attempt = some [stake] ∧
    wallet.paidOutputs = payment :: rest ∧ stake.scriptPubKey = payment.scriptPubKey ∧
    ¬(payment.nValue = 0 ∧ wallet.credit attempt = StakeWallet.worth wallet.paidOutputs)

/-- Only of nothing is there nothing left over the half that is rounded down. -/
theorem half_eq_iff (amount : Int) :
    amount - (amount.tdiv 2).tdiv 1000000 * 1000000 = 0 ↔ amount = 0 := by
  rcases Int.le_total 0 amount with positive | negative
  · rw [Int.tdiv_eq_ediv_of_nonneg positive,
      Int.tdiv_eq_ediv_of_nonneg (Int.ediv_nonneg positive (by decide))]
    omega
  · obtain ⟨size, rfl⟩ : ∃ size, amount = -size := ⟨-amount, by omega⟩
    have positive : 0 ≤ size := by omega
    rw [Int.neg_tdiv, Int.neg_tdiv, Int.tdiv_eq_ediv_of_nonneg positive,
      Int.tdiv_eq_ediv_of_nonneg (Int.ediv_nonneg positive (by decide))]
    omega

/-- The two amounts of a divided stake. -/
theorem divided_sum (amount half others : Int) :
    0 + (half + (amount - half + others)) = amount + others := by
  omega

/-- A payment keeps its amount where that of a stake is written, and the total is right: both are
nothing. -/
theorem divided_payment {credit value others half : Int}
    (halved : half = ((credit - (value + others)).tdiv 2).tdiv 1000000 * 1000000)
    (kept : value = credit - (value + others) - half)
    (total : 0 + (half + (credit - (value + others) - half + others)) = credit) :
    value = 0 ∧ credit = value + others := by
  have rest := half_eq_iff (credit - (value + others))
  rw [← halved] at rest
  omega

/-- Without outputs of an earlier attempt the coinstake is balanced but for a payment that is
taken. -/
theorem fresh_iff {attempt : StakeAttempt} {outputs vout : List CTxOut}
    (made : wallet.outputsOf attempt = some outputs)
    (set : setAmounts (wallet.credit attempt - worth wallet.paidOutputs)
      ([marker] ++ outputs ++ wallet.paidOutputs) = some vout) :
    ((∃ outputs stakes, wallet.outputsOf attempt = some outputs ∧
        scripts stakes = scripts outputs ∧ vout = marker :: stakes ++ wallet.paidOutputs) ∧
      worth vout = wallet.credit attempt) ↔ ¬wallet.PaymentTaken attempt := by
  obtain ⟨script, -, -, shape⟩ := outputsOf_eq_some made
  have sum : (wallet.credit attempt - worth wallet.paidOutputs : Int) + worth wallet.paidOutputs =
      wallet.credit attempt := Int.sub_add_cancel _ _
  have once : wallet.PaymentTaken attempt → ∃ stake, outputs = [stake] := by
    rintro ⟨stake, -, -, single, -⟩
    exact ⟨stake, Option.some.inj (made.symm.trans single)⟩
  rcases shape with rfl | rfl
  · cases paid : wallet.paidOutputs with
    | nil =>
        rw [paid] at set sum
        cases set
        refine iff_of_true ⟨⟨_, [_], made, by rfl, rfl⟩, ?_⟩ ?_
        · simp [marker]
        · rintro ⟨-, payment, rest, -, filled, -⟩
          rw [paid] at filled
          cases filled
    | cons payment rest =>
        rw [paid] at set sum
        by_cases same : script = payment.scriptPubKey
        · simp only [setAmounts, List.cons_append, List.nil_append, same, if_true,
            Option.some.injEq] at set
          have taken : wallet.PaymentTaken attempt ↔
              ¬(payment.nValue = 0 ∧ wallet.credit attempt = worth (payment :: rest)) := by
            constructor
            · rintro ⟨_, _, _, -, filled, -, seen⟩
              rw [paid] at filled seen
              cases filled
              exact seen
            · intro seen
              exact ⟨_, payment, rest, made, paid, same, by rwa [paid]⟩
          rw [taken, not_not]
          subst set
          constructor
          · rintro ⟨⟨_, stakes, created, scripted, whole⟩, total⟩
            rw [made] at created
            cases created
            obtain ⟨stake, rfl⟩ : ∃ stake, stakes = [stake] :=
              List.length_eq_one_iff.mp (by simpa [scripts] using congrArg List.length scripted)
            have kept := congrArg CTxOut.nValue
              (List.cons.inj (List.cons.inj (List.cons.inj whole).2).2).1
            exact divided_payment rfl kept.symm total
          · rintro ⟨free, owed⟩
            have nothing : (wallet.credit attempt - worth (payment :: rest) : Int) = 0 := by
              rw [owed]
              exact Int.sub_self _
            simp only [nothing]
            refine ⟨⟨_, [⟨0, script, -10⟩], made, rfl, ?_⟩, ?_⟩
            · cases payment
              subst free
              dsimp only at same
              subst same
              rfl
            · rw [owed]
              simp only [marker, worth_cons, free]
              exact divided_sum 0 _ _
        · simp only [setAmounts, List.cons_append, List.nil_append, same, if_false,
            Option.some.injEq] at set
          subst set
          refine iff_of_true ⟨⟨_, [_], made, by rfl, rfl⟩, ?_⟩ ?_
          · simp [marker]
          · rintro ⟨stake, _, _, single, filled, shared, -⟩
            rw [made] at single
            rw [paid] at filled
            cases single
            cases filled
            exact same shared
  · simp only [setAmounts, List.cons_append, List.nil_append, if_true,
      Option.some.injEq] at set
    subst set
    refine iff_of_true ⟨⟨_, [_, _], made, by rfl, rfl⟩, ?_⟩ ?_
    · exact (divided_sum _ _ _).trans sum
    · intro taken
      obtain ⟨stake, single⟩ := once taken
      cases single

/-- What stands before the outputs of a balanced coinstake is the marker. -/
theorem scripts_base {base stakes outputs paid : List CTxOut}
    (scripted : scripts stakes = scripts outputs)
    (kept : scripts (marker :: stakes ++ paid) = scripts (base ++ outputs ++ paid)) :
    scripts base = [[]] := by
  rw [List.cons_append, ← List.singleton_append, ← List.append_assoc] at kept
  simp only [scripts, List.map_append] at kept scripted ⊢
  rw [scripted] at kept
  exact (List.append_cancel_right (List.append_cancel_right kept)).symm

/-- **When a coinstake is balanced.** A transaction that `CreateCoinStake` returns is a balanced
coinstake of the first attempt that completes, if and only if no attempt has failed after its
outputs were created, and the first payment is not taken for a second output of the stake. -/
theorem balanced_iff (wallet : StakeWallet) (listInputs : List StakeAttempt)
    {tx : CMutableTransaction} (created : wallet.createCoinStake listInputs = .created tx) :
    (∃ attempt, listInputs.find? wallet.completes = some attempt ∧ wallet.Balanced attempt tx) ↔
      ∀ attempt, listInputs.find? wallet.reaches = some attempt →
        (attempt.fLocked && attempt.txInCreated) = true ∧ ¬wallet.PaymentTaken attempt := by
  unfold createCoinStake at created
  split at created
  · cases created
  · cases tried : wallet.tryInputs listInputs { vout := [marker] } with
    | failed => simp [tried] at created
    | undefined => simp [tried] at created
    | created txNew =>
        obtain ⟨attempt, outputs, base, found, made, spent, set, start⟩ :=
          tryInputs_created rfl tried
        rw [tried] at created
        dsimp only at created
        cases signed : wallet.signSignature txNew with
        | none => simp [signed] at created
        | some scriptSig =>
            rw [signed] at created
            cases created
            rcases start with ⟨first, rfl⟩ | ⟨⟨failed, first, incomplete⟩, differ⟩
            · have complete := List.find?_some found
              rw [completes, Bool.and_assoc, Bool.and_eq_true] at complete
              constructor
              · rintro ⟨same, chosen, balanced⟩ other reached
                rw [found] at chosen
                rw [first] at reached
                cases chosen
                cases reached
                exact ⟨complete.2, (fresh_iff made set).mp ⟨balanced.vout, balanced.worth⟩⟩
              · intro condition
                obtain ⟨vout, worth⟩ := (fresh_iff made set).mpr (condition attempt first).2
                exact ⟨attempt, found, ⟨scriptSig, by rw [spent]; rfl⟩, vout, worth⟩
            · refine iff_of_false ?_ fun condition => ?_
              · rintro ⟨same, chosen, balanced⟩
                rw [found] at chosen
                cases chosen
                obtain ⟨others, stakes, again, scripted, whole⟩ := balanced.vout
                rw [made] at again
                cases again
                have kept := scripts_setAmounts set
                rw [whole] at kept
                exact differ (scripts_base scripted kept)
              · rw [(condition failed first).1] at incomplete
                cases incomplete

/-- A wallet with coins to stake that signs with one byte. -/
def stakingWallet : StakeWallet where
  node := NodeContext.mainNode 300000
  budget := {}
  payments := {}
  mnodeman := ⟨[]⟩
  nBalance := 500 * COIN
  nReserveBalance := 0
  medianTimePast := 1000
  getKey _ := none
  getSerializeSize _ := 200
  signSignature _ := some [0x01]

/-- A coin of a hundred for a public key of one repeated byte, with a kernel. -/
def stakeOf (key : UInt8) : StakeAttempt where
  prevout := ⟨BitVec.ofNat 256 key.toNat, 0⟩
  coin := ⟨100 * COIN, 0x21 :: List.replicate 33 key ++ [CScript.opCheckSig], -10⟩
  indexHeight := some 299000
  kernelTime := some 2000

/-- A coin without a kernel, the coin that is staked, and one that is not tried any more. -/
def stakeInputs : List StakeAttempt := [{ stakeOf 3 with kernelTime := none }, stakeOf 2, stakeOf 4]

theorem balanced_stakeOf :
    ∃ attempt, stakeInputs.find? stakingWallet.completes = some attempt ∧
      stakingWallet.Balanced attempt
        ⟨[{ prevout := ⟨2, 0⟩, scriptSig := [0x01] }],
          [marker, ⟨110 * COIN, (stakeOf 2).coin.scriptPubKey, -10⟩]⟩ :=
  (balanced_iff stakingWallet stakeInputs (by decide +kernel)).mpr (by
    intro attempt first
    have same : stakeOf 2 = attempt := by
      have reached : stakeInputs.find? stakingWallet.reaches = some (stakeOf 2) := by
        decide +kernel
      exact Option.some.inj (reached.symm.trans first)
    subst same
    refine ⟨rfl, ?_⟩
    rintro ⟨_, payment, rest, -, paid, -⟩
    have free : stakingWallet.paidOutputs = [] := by decide +kernel
    rw [free] at paid
    cases paid)

/-- Without the lock for the first of two coins, the outputs of the first stay before those of the
second, and what the second earns is paid to the first. -/
theorem not_balanced_unlocked :
    ¬ ∀ (wallet : StakeWallet) (listInputs : List StakeAttempt) (tx : CMutableTransaction),
      wallet.createCoinStake listInputs = .created tx →
        ∃ attempt, listInputs.find? wallet.completes = some attempt ∧
          wallet.Balanced attempt tx := by
  intro always
  obtain ⟨attempt, found, -, ⟨outputs, stakes, made, scripted, whole⟩, -⟩ :=
    always stakingWallet [{ stakeOf 2 with fLocked := false }, stakeOf 3]
      ⟨[{ prevout := ⟨3, 0⟩, scriptSig := [0x01] }],
        [marker, ⟨110 * COIN, (stakeOf 2).coin.scriptPubKey, -10⟩,
          ⟨0, (stakeOf 3).coin.scriptPubKey, -10⟩]⟩ (by decide +kernel)
  have second : [{ stakeOf 2 with fLocked := false }, stakeOf 3].find? stakingWallet.completes =
      some (stakeOf 3) := by
    decide +kernel
  have single : stakingWallet.outputsOf (stakeOf 3) =
      some [⟨0, (stakeOf 3).coin.scriptPubKey, -10⟩] := by
    decide +kernel
  have free : stakingWallet.paidOutputs = [] := by decide +kernel
  cases second.symm.trans found
  cases single.symm.trans made
  have count := congrArg List.length scripted
  have length := congrArg List.length whole
  rw [free] at length
  simp only [scripts, List.length_map, List.length_cons, List.length_nil, List.length_append]
    at count length
  omega

end StakeWallet

end GiantCore
