import GiantCore.Coins.Connect
import GiantCore.Script.Restriction

/-! # Standard inputs

`Solver` and `ScriptSigArgsExpected` of `standard.cpp`, the count of signature operations, and
`AreInputsStandard` of `main.cpp`. For an input that spends to the hash of a script that is not
standard itself, the loop returns for the whole transaction. So the verdict is about every input
unless such an input and one that fails come together (`areInputsStandard_iff`).
-/

namespace GiantCore

/-- `txnouttype`. -/
inductive TxnOutType where
  | nonstandard
  | pubkey
  | pubkeyHash
  | scriptHash
  | multisig
  | nullData
  | zerocoinMint
  deriving DecidableEq, Repr

namespace CScript

/-- `OP_SMALLINTEGER`. -/
def opSmallInteger : UInt8 := 0xfa

/-- `OP_PUBKEYS`. -/
def opPubkeys : UInt8 := 0xfb

/-- `OP_PUBKEYHASH`. -/
def opPubkeyHash : UInt8 := 0xfd

/-- `OP_PUBKEY`. -/
def opPubkey : UInt8 := 0xfe

/-- `OP_INVALIDOPCODE`. -/
def opInvalidOpcode : UInt8 := 0xff

/-- `OP_1` to `OP_16`. -/
def isOpN (opcode : UInt8) : Bool := decide (0x51 ≤ opcode) && decide (opcode ≤ Opcode.op16)

/-- `DecodeOP_N` of such an opcode, or of `OP_0`. -/
def decodeOpN (opcode : UInt8) : Nat := if opcode = 0 then 0 else opcode.toNat - 0x50

/-! ## Templates -/

/-- A pushed public key may have this length. -/
def isKeySize (vch : Valtype) : Bool := decide (33 ≤ vch.length) && decide (vch.length ≤ 65)

/-- The loop over the keys for `OP_PUBKEYS`: the keys, and the operation behind them. A script that
cannot be read on leaves the invalid opcode. -/
def takePubkeys (opcode1 : UInt8) (vch1 : Valtype) (script1 : CScript) :
    List Valtype × UInt8 × Valtype × CScript :=
  if isKeySize vch1 then
    match read : script1.getOp with
    | none => ([vch1], opInvalidOpcode, [], [])
    | some (opcode, vch, rest) =>
        have := length_of_getOp read
        let (keys, behind) := takePubkeys opcode vch rest
        (vch1 :: keys, behind)
  else ([], opcode1, vch1, script1)
termination_by script1.length

/-- The solutions that one operation adds, if it fits the operation of the template. -/
def fitOp (opcode1 opcode2 : UInt8) (vch1 vch2 : Valtype) : Option (List Valtype) :=
  if opcode2 = opPubkey then if isKeySize vch1 then some [vch1] else none
  else if opcode2 = opPubkeyHash then if vch1.length = 20 then some [vch1] else none
  else if opcode2 = opSmallInteger then
    if opcode1 = 0 ∨ isOpN opcode1 then some [[UInt8.ofNat (decodeOpN opcode1)]] else none
  else if opcode1 ≠ opcode2 ∨ vch1 ≠ vch2 then none
  else some []

/-- A script is compared with a template, operation by operation. -/
def matchTemplate (script1 script2 : CScript) (vSolutions : List Valtype) :
    Option (List Valtype) :=
  if script1.isEmpty && script2.isEmpty then some vSolutions
  else match script1.getOp, read : script2.getOp with
    | some (opcode1, vch1, rest1), some (opcode2, vch2, rest2) =>
        have := length_of_getOp read
        if opcode2 = opPubkeys then
          let (keys, opcode1, vch1, rest1) := takePubkeys opcode1 vch1 rest1
          match next : rest2.getOp with
          | none => none
          | some (opcode2, vch2, rest2) =>
              have := length_of_getOp next
              match fitOp opcode1 opcode2 vch1 vch2 with
              | none => none
              | some found => matchTemplate rest1 rest2 (vSolutions ++ keys ++ found)
        else match fitOp opcode1 opcode2 vch1 vch2 with
          | none => none
          | some found => matchTemplate rest1 rest2 (vSolutions ++ found)
    | _, _ => none
termination_by script2.length

/-- `mTemplates`, in the order of their types. -/
def templates : List (TxnOutType × CScript) :=
  [(.pubkey, [opPubkey, 0xac]), (.pubkeyHash, [0x76, 0xa9, opPubkeyHash, 0x88, 0xac]),
    (.multisig, [opSmallInteger, opPubkeys, opSmallInteger, 0xae])]

/-- The numbers of a multisignature fit each other and the keys. -/
def multisigFits (vSolutions : List Valtype) : Bool :=
  let m := ((vSolutions.head?.bind List.head?).getD 0).toNat
  let n := ((vSolutions.getLast?.bind List.head?).getD 0).toNat
  decide (1 ≤ m) && decide (1 ≤ n) && decide (m ≤ n) && vSolutions.length - 2 == n

/-- The scan over the templates. -/
def scanTemplates (script : CScript) :
    List (TxnOutType × CScript) → Option (TxnOutType × List Valtype)
  | [] => none
  | (type, template) :: rest =>
      match matchTemplate script template [] with
      | none => scanTemplates script rest
      | some vSolutions =>
          if type = .multisig ∧ multisigFits vSolutions = false then none
          else some (type, vSolutions)

/-- `Solver`: the type of a script and its solutions, or nothing where it returns false. -/
def solver (scriptPubKey : CScript) : Option (TxnOutType × List Valtype) :=
  if scriptPubKey.isPayToScriptHash then
    some (.scriptHash, [(scriptPubKey.drop 2).take 20])
  else if isZerocoinMint scriptPubKey then
    if scriptPubKey.length > 150 then none else some (.zerocoinMint, [scriptPubKey.drop 2])
  else if scriptPubKey.head? = some opReturn ∧ CScript.isPushOnly scriptPubKey.tail then
    some (.nullData, [])
  else scanTemplates scriptPubKey templates

/-- The count of signature operations from an instruction on, behind an opcode. -/
def sigOpsOf (fAccurate : Bool) : List Instruction → UInt8 → Nat
  | .op opcode _ _ :: rest, lastOpcode =>
      (if opcode = 0xac ∨ opcode = 0xad then 1
        else if opcode = 0xae ∨ opcode = 0xaf then
          if fAccurate && isOpN lastOpcode then decodeOpN lastOpcode else 20
        else 0) + sigOpsOf fAccurate rest opcode
  | _, _ => 0

/-- `GetSigOpCount`. -/
def getSigOpCount (fAccurate : Bool) (script : CScript) : Nat :=
  sigOpsOf fAccurate script.instructions opInvalidOpcode

end CScript

/-- `ScriptSigArgsExpected`. -/
def scriptSigArgsExpected (type : TxnOutType) (vSolutions : List Valtype) : Int :=
  match type with
  | .nonstandard | .nullData | .zerocoinMint => -1
  | .pubkey => 1
  | .pubkeyHash => 2
  | .multisig =>
      match vSolutions.head?.bind List.head? with
      | none => -1
      | some m => m.toNat + 1
  | .scriptHash => 1

/-! ## The inputs of a transaction -/

/-- `MAX_P2SH_SIGOPS`. -/
def maxP2SHSigOps : Nat := 15

/-- What a round of the loop over the inputs does. -/
inductive InputVerdict where
  /-- The function returns false. -/
  | fails
  /-- The loop goes on. -/
  | passes
  /-- The function returns true. -/
  | accepts
  deriving DecidableEq, Repr

/-- `GetOutputFor`, or nothing where its assertion fails. -/
def getOutputFor (coins : CoinsMap) (input : CTxIn) : Option CTxOut :=
  let found := coins input.prevout.hash
  if found.isAvailable input.prevout.n.toNat then found.vout[input.prevout.n.toNat]? else none

section

variable (ctx : ScriptContext)

/-- `EvalScript` without flags and with a checker that knows no signatures. -/
def evalScriptSig (scriptSig : CScript) : Except ScriptError (List Valtype) :=
  evalScript { ctx with flags := 0, checker := ⟨fun _ _ _ => false, fun _ => false⟩ } [] scriptSig

/-- The number of elements on the stack is the one expected. -/
def verdictOfArgs (stack : List Valtype) (nArgsExpected : Int) : InputVerdict :=
  if (stack.length : Int) ≠ nArgsExpected then .fails else .passes

/-- One round of the loop. -/
def inputVerdict (prevScript scriptSig : CScript) : InputVerdict :=
  match prevScript.solver with
  | none => .fails
  | some (whichType, vSolutions) =>
      let nArgsExpected := scriptSigArgsExpected whichType vSolutions
      if nArgsExpected < 0 then .fails
      else match evalScriptSig ctx scriptSig with
        | .error _ => .fails
        | .ok stack =>
            if whichType = .scriptHash then
              match stack with
              | [] => .fails
              | subscript :: _ =>
                  match CScript.solver subscript with
                  | some (whichType2, vSolutions2) =>
                      let tmpExpected := scriptSigArgsExpected whichType2 vSolutions2
                      if tmpExpected < 0 then .fails
                      else verdictOfArgs stack (nArgsExpected + tmpExpected)
                  | none =>
                      -- `return (sigops <= MAX_P2SH_SIGOPS)`, whatever inputs are left
                      if CScript.getSigOpCount true subscript ≤ maxP2SHSigOps then .accepts
                      else .fails
            else verdictOfArgs stack nArgsExpected

/-- The loop of `AreInputsStandard`. -/
def inputsStandard (coins : CoinsMap) : List CTxIn → Option Bool
  | [] => some true
  | txin :: rest =>
      match getOutputFor coins txin with
      | none => none
      | some prev =>
          match inputVerdict ctx prev.scriptPubKey txin.scriptSig with
          | .fails => some false
          | .passes => inputsStandard coins rest
          | .accepts => some true

/-- `AreInputsStandard`; nothing where an output is not there. -/
def areInputsStandard (coins : CoinsMap) (tx : CTransaction) : Option Bool :=
  if tx.isCoinBase || tx.hasZerocoinSpendInputs then some true
  else inputsStandard ctx coins tx.vin

/-! ## What the verdict says -/

/-- The verdict about an input whose output is there. -/
def verdictOf (coins : CoinsMap) (txin : CTxIn) : InputVerdict :=
  inputVerdict ctx ((getOutputFor coins txin).getD CTxOut.null).scriptPubKey txin.scriptSig

/-- The input shows a script for a hash that no template fits, and that has few enough signature
operations. -/
def ShowsUnsolved (coins : CoinsMap) (txin : CTxIn) : Prop :=
  ∃ vSolutions subscript rest,
    ((getOutputFor coins txin).getD CTxOut.null).scriptPubKey.solver =
      some (.scriptHash, vSolutions) ∧
    evalScriptSig ctx txin.scriptSig = .ok (subscript :: rest) ∧
    CScript.solver subscript = none ∧ CScript.getSigOpCount true subscript ≤ maxP2SHSigOps

/-- The transaction with other inputs. -/
def CTransaction.withInputs (tx : CTransaction) (vin : List CTxIn) : CTransaction :=
  { tx with vin }

/-- **Every input is checked**: a standard transaction is standard with any one of its inputs, and
the order of the inputs does not matter. -/
structure InputsChecked (coins : CoinsMap) (tx : CTransaction) : Prop where
  each : areInputsStandard ctx coins tx = some true →
    ∀ txin ∈ tx.vin, areInputsStandard ctx coins (tx.withInputs [txin]) = some true
  order : ∀ vin : List CTxIn, vin.Perm tx.vin →
    areInputsStandard ctx coins (tx.withInputs vin) = areInputsStandard ctx coins tx

variable {ctx} {coins : CoinsMap} {tx : CTransaction}

theorem verdictOfArgs_ne_accepts (stack : List Valtype) (nArgsExpected : Int) :
    verdictOfArgs stack nArgsExpected ≠ .accepts := by
  unfold verdictOfArgs
  split <;> exact nofun

theorem verdictOf_eq_accepts_iff {txin : CTxIn} :
    verdictOf ctx coins txin = .accepts ↔ ShowsUnsolved ctx coins txin := by
  constructor
  · intro accepted
    unfold verdictOf inputVerdict at accepted
    split at accepted
    · cases accepted
    · rename_i whichType vSolutions solved
      dsimp only at accepted
      split at accepted
      · cases accepted
      · split at accepted
        · cases accepted
        · rename_i stack evaluated
          split at accepted
          · rename_i hashed
            rw [hashed] at solved
            split at accepted
            · cases accepted
            · rename_i subscript rest
              split at accepted
              · split at accepted
                · cases accepted
                · exact absurd accepted (verdictOfArgs_ne_accepts _ _)
              · rename_i unsolved
                split at accepted
                · rename_i few
                  exact ⟨vSolutions, subscript, rest, solved, evaluated, unsolved, few⟩
                · cases accepted
          · exact absurd accepted (verdictOfArgs_ne_accepts _ _)
  · rintro ⟨vSolutions, subscript, rest, solved, evaluated, unsolved, few⟩
    have one : ¬ scriptSigArgsExpected .scriptHash vSolutions < 0 :=
      Int.not_lt.mpr Int.one_nonneg
    unfold verdictOf inputVerdict
    rw [solved]
    dsimp only
    rw [if_neg one, evaluated]
    dsimp only
    rw [if_pos rfl, unsolved]
    exact if_pos few

theorem inputsStandard_cons {txin : CTxIn} {rest : List CTxIn}
    (there : (getOutputFor coins txin).isSome) :
    inputsStandard ctx coins (txin :: rest) =
      match verdictOf ctx coins txin with
      | .fails => some false
      | .passes => inputsStandard ctx coins rest
      | .accepts => some true := by
  obtain ⟨prev, found⟩ := Option.isSome_iff_exists.mp there
  rw [inputsStandard, verdictOf, found]
  rfl

/-- Without an input that fails the loop returns true. -/
theorem inputsStandard_of_no_failure {vin : List CTxIn}
    (there : ∀ txin ∈ vin, (getOutputFor coins txin).isSome)
    (none_fails : ∀ txin ∈ vin, verdictOf ctx coins txin ≠ .fails) :
    inputsStandard ctx coins vin = some true := by
  induction vin with
  | nil => rfl
  | cons txin rest ih =>
      rw [inputsStandard_cons (there txin List.mem_cons_self)]
      have first := none_fails txin List.mem_cons_self
      split
      · rename_i failed
        exact absurd failed first
      · exact ih (fun other member => there other (List.mem_cons_of_mem txin member))
          fun other member => none_fails other (List.mem_cons_of_mem txin member)
      · rfl

/-- Without an input that is accepted at once the loop tests all inputs. -/
theorem inputsStandard_of_no_accept {vin : List CTxIn}
    (there : ∀ txin ∈ vin, (getOutputFor coins txin).isSome)
    (none_accepts : ∀ txin ∈ vin, verdictOf ctx coins txin ≠ .accepts) :
    inputsStandard ctx coins vin =
      some (decide (∀ txin ∈ vin, verdictOf ctx coins txin = .passes)) := by
  induction vin with
  | nil => rfl
  | cons txin rest ih =>
      rw [inputsStandard_cons (there txin List.mem_cons_self),
        ih (fun other member => there other (List.mem_cons_of_mem txin member))
          fun other member => none_accepts other (List.mem_cons_of_mem txin member)]
      have first := none_accepts txin List.mem_cons_self
      split
      · rename_i failed
        simp [failed]
      · rename_i passed
        simp [passed]
      · rename_i accepted
        exact absurd accepted first

theorem isCoinBase_perm {vin : List CTxIn} (same : vin.Perm tx.vin) :
    (tx.withInputs vin).isCoinBase = tx.isCoinBase := by
  match vin with
  | [txin] =>
      have equal : tx.vin = [txin] := List.perm_singleton.mp same.symm
      have whole : tx.withInputs [txin] = tx := by rw [← equal]; rfl
      rw [whole]
  | [] =>
      have equal : tx.vin = [] := List.perm_nil.mp same.symm
      have whole : tx.withInputs [] = tx := by rw [← equal]; rfl
      rw [whole]
  | first :: second :: rest =>
      have length := same.length_eq
      unfold CTransaction.isCoinBase CTransaction.withInputs
      split
      · rename_i one
        cases one
      · split
        · rename_i one
          rw [one] at length
          simp at length
        · rfl

theorem hasZerocoinSpendInputs_of_subset {vin : List CTxIn}
    (ordinary : tx.hasZerocoinSpendInputs = false) (subset : vin ⊆ tx.vin) :
    (tx.withInputs vin).hasZerocoinSpendInputs = false := by
  unfold CTransaction.hasZerocoinSpendInputs at ordinary ⊢
  rw [List.any_eq_false] at ordinary ⊢
  exact fun txin member => ordinary txin (subset member)

theorem areInputsStandard_single {txin : CTxIn} (there : (getOutputFor coins txin).isSome)
    (fits : verdictOf ctx coins txin ≠ .fails) :
    areInputsStandard ctx coins (tx.withInputs [txin]) = some true := by
  unfold areInputsStandard
  split
  · rfl
  · apply inputsStandard_of_no_failure
    · intro other inside
      rw [List.mem_singleton.mp inside]
      exact there
    · intro other inside
      rw [List.mem_singleton.mp inside]
      exact fits

/-- The only input of a coinbase. -/
theorem vin_of_isCoinBase (coinBase : tx.isCoinBase = true) {txin : CTxIn}
    (member : txin ∈ tx.vin) : tx.vin = [txin] := by
  unfold CTransaction.isCoinBase at coinBase
  split at coinBase
  · rename_i one vin
    rw [vin] at member ⊢
    rw [List.mem_singleton.mp member]
  · cases coinBase

/-- Without an input that fails, the transaction is standard in every order of its inputs. -/
theorem areInputsStandard_of_no_failure {vin : List CTxIn} (same : vin.Perm tx.vin)
    (there : ∀ txin ∈ tx.vin, (getOutputFor coins txin).isSome)
    (none_fails : ∀ txin ∈ tx.vin, verdictOf ctx coins txin ≠ .fails) :
    areInputsStandard ctx coins (tx.withInputs vin) = some true := by
  unfold areInputsStandard
  split
  · rfl
  · exact inputsStandard_of_no_failure (fun txin member => there txin (same.subset member))
      fun txin member => none_fails txin (same.subset member)

/-- Without an input that is accepted at once, the order does not matter either. -/
theorem areInputsStandard_of_no_accept {vin : List CTxIn} (same : vin.Perm tx.vin)
    (ordinary : tx.hasZerocoinSpendInputs = false)
    (there : ∀ txin ∈ tx.vin, (getOutputFor coins txin).isSome)
    (none_accepts : ∀ txin ∈ tx.vin, verdictOf ctx coins txin ≠ .accepts) :
    areInputsStandard ctx coins (tx.withInputs vin) = some (tx.isCoinBase ||
      decide (∀ txin ∈ tx.vin, verdictOf ctx coins txin = .passes)) := by
  have coinBase := isCoinBase_perm same
  have spends := hasZerocoinSpendInputs_of_subset ordinary same.subset
  have tested := inputsStandard_of_no_accept
    (fun txin member => there txin (same.subset member))
    fun txin member => none_accepts txin (same.subset member)
  have members : (∀ txin ∈ vin, verdictOf ctx coins txin = .passes) ↔
      ∀ txin ∈ tx.vin, verdictOf ctx coins txin = .passes :=
    forall_congr' fun txin => imp_congr_left same.mem_iff
  rw [areInputsStandard, coinBase, spends, Bool.or_false]
  cases tx.isCoinBase with
  | true => rfl
  | false =>
      rw [decide_eq_decide.mpr members] at tested
      exact tested

theorem inputsChecked_of_no_failure (there : ∀ txin ∈ tx.vin, (getOutputFor coins txin).isSome)
    (none_fails : ∀ txin ∈ tx.vin, verdictOf ctx coins txin ≠ .fails) :
    InputsChecked ctx coins tx := by
  refine ⟨fun _ txin member => ?_, fun vin same => ?_⟩
  · exact areInputsStandard_single (there txin member) (none_fails txin member)
  · rw [areInputsStandard_of_no_failure same there none_fails]
    exact (areInputsStandard_of_no_failure (List.Perm.refl _) there none_fails).symm

theorem inputsChecked_of_no_accept (ordinary : tx.hasZerocoinSpendInputs = false)
    (there : ∀ txin ∈ tx.vin, (getOutputFor coins txin).isSome)
    (none_accepts : ∀ txin ∈ tx.vin, verdictOf ctx coins txin ≠ .accepts) :
    InputsChecked ctx coins tx := by
  have whole : areInputsStandard ctx coins tx = some (tx.isCoinBase ||
      decide (∀ txin ∈ tx.vin, verdictOf ctx coins txin = .passes)) :=
    areInputsStandard_of_no_accept (List.Perm.refl _) ordinary there none_accepts
  refine ⟨fun standard txin member => ?_, fun vin same => ?_⟩
  · cases coinBase : tx.isCoinBase with
    | true =>
        rw [← vin_of_isCoinBase coinBase member]
        exact standard
    | false =>
        rw [standard, Option.some.injEq, coinBase, Bool.false_or] at whole
        have passes := of_decide_eq_true whole.symm txin member
        exact areInputsStandard_single (there txin member) (by rw [passes]; decide)
  · rw [areInputsStandard_of_no_accept same ordinary there none_accepts, whole]

/-- The input that stands in front decides, if it does not pass. -/
theorem InputsChecked.eq_of_first (checked : InputsChecked ctx coins tx)
    (ordinary : tx.hasZerocoinSpendInputs = false) (plain : tx.isCoinBase = false)
    {txin : CTxIn} (member : txin ∈ tx.vin) :
    ∃ rest, areInputsStandard ctx coins tx = inputsStandard ctx coins (txin :: rest) := by
  have same : (txin :: tx.vin.erase txin).Perm tx.vin := (List.perm_cons_erase member).symm
  have coinBase := isCoinBase_perm same
  have spends := hasZerocoinSpendInputs_of_subset ordinary same.subset
  refine ⟨tx.vin.erase txin, ?_⟩
  rw [← checked.order _ same, areInputsStandard, coinBase, plain, spends]
  rfl

end

/-- **When the verdict is about every input.** With outputs for all its inputs, a transaction
without zerocoin inputs is checked input by input exactly if no input that shows a script without
a template comes together with one that fails. -/
theorem areInputsStandard_iff (ctx : ScriptContext) (coins : CoinsMap) (tx : CTransaction)
    (ordinary : tx.hasZerocoinSpendInputs = false)
    (there : ∀ txin ∈ tx.vin, (getOutputFor coins txin).isSome) :
    InputsChecked ctx coins tx ↔
      ¬ ((∃ txin ∈ tx.vin, ShowsUnsolved ctx coins txin) ∧
        ∃ txin ∈ tx.vin, verdictOf ctx coins txin = .fails) := by
  simp only [← verdictOf_eq_accepts_iff]
  constructor
  · rintro checked ⟨⟨first, first_mem, accepted⟩, second, second_mem, failed⟩
    have plain : tx.isCoinBase = false := by
      cases coinBase : tx.isCoinBase with
      | false => rfl
      | true =>
          rw [vin_of_isCoinBase coinBase first_mem] at second_mem
          rw [List.mem_singleton.mp second_mem, accepted] at failed
          cases failed
    -- the two inputs in front decide in their own way
    obtain ⟨rest, accepting⟩ := checked.eq_of_first ordinary plain first_mem
    obtain ⟨others, failing⟩ := checked.eq_of_first ordinary plain second_mem
    rw [inputsStandard_cons (there first first_mem), accepted] at accepting
    rw [inputsStandard_cons (there second second_mem), failed, accepting] at failing
    cases failing
  · intro apart
    by_cases accepted : ∃ txin ∈ tx.vin, verdictOf ctx coins txin = .accepts
    · exact inputsChecked_of_no_failure there
        fun txin member failed => apart ⟨accepted, txin, member, failed⟩
    · exact inputsChecked_of_no_accept ordinary there
        fun txin member accepts => accepted ⟨txin, member, accepts⟩

/-! ## A transaction with two inputs -/

/-- An output that pays to a script hash, one with a script of its own, and one that pays to a
public key. -/
def mixedCoins : CoinsMap := fun txid =>
  if txid = 1 then
    { vout := [⟨10, [0xa9, 0x14] ++ List.replicate 20 7 ++ [0x87], -10⟩, ⟨10, [0x51], -10⟩,
        ⟨10, 0x21 :: List.replicate 33 2 ++ [CScript.opCheckSig], -10⟩] }
  else {}

/-- The input that shows the script `OP_1` for the hash. -/
def hashInput : CTxIn := { prevout := ⟨1, 0⟩, scriptSig := [0x01, 0x51] }

/-- The input that spends the output with a script of its own. -/
def bareInput : CTxIn := { prevout := ⟨1, 1⟩ }

/-- The input that spends the output for a public key. -/
def keyInput : CTxIn := { prevout := ⟨1, 2⟩, scriptSig := [0x01, 0x30] }

/-- It spends some of them. -/
def mixedSpend (vin : List CTxIn) : CTransaction := { hash := 2, vin, vout := [⟨5, [0x51], -10⟩] }

/-- The input for the public key passes, in front of one that fails and behind it. -/
theorem inputsChecked_keyInput :
    verdictOf ScriptContext.accepting mixedCoins keyInput = .passes ∧
    verdictOf ScriptContext.accepting mixedCoins bareInput = .fails ∧
    InputsChecked ScriptContext.accepting mixedCoins (mixedSpend [keyInput, bareInput]) := by
  refine ⟨by decide +kernel, by decide +kernel, ?_⟩
  refine (areInputsStandard_iff ScriptContext.accepting mixedCoins
    (mixedSpend [keyInput, bareInput]) (by decide) (by decide)).mpr ?_
  rintro ⟨⟨txin, member, shown⟩, -⟩
  have none : ∀ txin ∈ [keyInput, bareInput],
      verdictOf ScriptContext.accepting mixedCoins txin ≠ .accepts := by
    decide +kernel
  exact none txin member (verdictOf_eq_accepts_iff.mpr shown)

/-- The transaction with both inputs is accepted, and with the second alone it is not. -/
theorem not_inputsChecked_mixedSpend :
    areInputsStandard ScriptContext.accepting mixedCoins (mixedSpend [hashInput, bareInput]) =
      some true ∧
    areInputsStandard ScriptContext.accepting mixedCoins (mixedSpend [bareInput]) = some false ∧
    areInputsStandard ScriptContext.accepting mixedCoins (mixedSpend [bareInput, hashInput]) =
      some false ∧
    ¬ InputsChecked ScriptContext.accepting mixedCoins (mixedSpend [hashInput, bareInput]) := by
  have accepted : areInputsStandard ScriptContext.accepting mixedCoins
      (mixedSpend [hashInput, bareInput]) = some true := by
    decide +kernel
  have alone : areInputsStandard ScriptContext.accepting mixedCoins
      (mixedSpend [bareInput]) = some false := by
    decide +kernel
  refine ⟨accepted, alone, by decide +kernel, fun checked => ?_⟩
  have reduced := checked.each accepted bareInput (by decide)
  change areInputsStandard _ _ (mixedSpend [bareInput]) = _ at reduced
  rw [alone] at reduced
  cases reduced

end GiantCore
