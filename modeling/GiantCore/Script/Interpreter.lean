import GiantCore.Foundation.Program
import GiantCore.Script.Script

/-! # The script interpreter

`EvalScript` and `VerifyScript` of `interpreter.cpp`. The stacks are lists with the top
first. An opcode is a program over the machine: it reads an element by its distance from
the top, as `stacktop` does, takes elements off with `popstack` and tests the size of the
stack itself, as the source does. What goes wrong without such a test is a way to stop of
its own.
-/

namespace GiantCore

open GiantCore.Foundation GiantCore.Foundation.Program

/-- `ScriptError`, without success. -/
inductive ScriptError where
  | unknownError | evalFalse | opReturn
  | scriptSize | pushSize | opCount | stackSize | sigCount | pubkeyCount
  | verify | equalVerify | checkMultiSigVerify | checkSigVerify | numEqualVerify
  | badOpcode | disabledOpcode | invalidStackOperation | invalidAltstackOperation
  | unbalancedConditional
  | negativeLocktime | unsatisfiedLocktime
  | sigHashtype | sigDER | minimalData | sigPushOnly | sigHighS | sigNullDummy | pubkeyType
  | discourageUpgradableNops
  deriving DecidableEq, Repr

/-- How a script ends early. -/
inductive ScriptStop where
  /-- The function returns false. -/
  | fails (serror : ScriptError)
  /-- `CScriptNum` throws `scriptnum_error`. -/
  | scriptNumError
  /-- An element below the bottom of a stack is read, or erased. -/
  | outOfRange
  /-- `popstack` throws, as the stack is empty. -/
  | stackEmpty
  /-- The last branch is used, and there is none. -/
  | noBranch
  deriving DecidableEq, Repr

/-- The flags of `interpreter.h`. -/
inductive ScriptFlag where
  | p2sh | strictEnc | derSig | lowS | nullDummy | sigPushOnly | minimalData
  | discourageUpgradableNops | cleanStack | checkLockTimeVerify
  deriving DecidableEq, Repr

/-- The bit of a flag. -/
def ScriptFlag.bit : ScriptFlag → Nat
  | p2sh => 0
  | strictEnc => 1
  | derSig => 2
  | lowS => 3
  | nullDummy => 4
  | sigPushOnly => 5
  | minimalData => 6
  | discourageUpgradableNops => 7
  | cleanStack => 8
  | checkLockTimeVerify => 9

/-- A set of flags, an `unsigned int`. -/
abbrev ScriptFlags := BitVec 32

def ScriptFlags.has (flags : ScriptFlags) (flag : ScriptFlag) : Bool := flags.getLsbD flag.bit

/-- `STANDARD_SCRIPT_VERIFY_FLAGS`. -/
def standardScriptVerifyFlags : ScriptFlags := 0b11010111

/-- `BaseSignatureChecker`. -/
structure BaseSignatureChecker where
  checkSig : Valtype → Valtype → CScript → Bool
  checkLockTime : Int → Bool

/-- What the interpreter is given, and the functions that are outside of it. -/
structure ScriptContext where
  flags : ScriptFlags
  checker : BaseSignatureChecker
  hash : HashOp → Valtype → Valtype
  /-- `CPubKey::CheckLowS`. -/
  checkLowS : Valtype → Bool

/-- The state of `EvalScript`. -/
structure Machine where
  stack : List Valtype
  altstack : List Valtype := []
  /-- The branches that are open, the innermost first. -/
  vfExec : List Bool := []
  nOpCount : Nat := 0
  /-- The script from `pbegincodehash` on. -/
  codeHash : CScript := []
  deriving DecidableEq, Repr

/-- A part of `EvalScript`. -/
abbrev Exec (α : Type) := Program Machine ScriptStop α

namespace Exec

/-- `return set_error`. -/
def fail {α : Type} (serror : ScriptError) : Exec α := stop (.fails serror)

/-- Go on, or return an error. -/
def check (kept : Bool) (serror : ScriptError) : Exec Unit :=
  require (fun _ => kept) (.fails serror)

/-- A part that is left out unless a condition holds. -/
def whenever (condition : Bool) (part : Exec Unit) : Exec Unit :=
  if condition then part else pure ()

/-- The stack holds as many elements. -/
def needStack (size : Nat) (serror : ScriptError := .invalidStackOperation) : Exec Unit :=
  require (fun machine => decide (size ≤ machine.stack.length)) (.fails serror)

/-- `stacktop(-i)`. -/
def stacktop (i : Nat) : Exec Valtype :=
  expect (fun machine => if i = 0 then none else machine.stack[i - 1]?) .outOfRange

/-- `popstack`. -/
def popstack : Exec Unit := do
  require (fun machine => !machine.stack.isEmpty) .stackEmpty
  update fun machine => { machine with stack := machine.stack.tail }

def push (vch : Valtype) : Exec Unit :=
  update fun machine => { machine with stack := vch :: machine.stack }

/-- `stack.erase(stack.end()-i)`. -/
def eraseTop (i : Nat) : Exec Unit := do
  require (fun machine => decide (0 < i ∧ i ≤ machine.stack.length)) .outOfRange
  update fun machine => { machine with stack := machine.stack.eraseIdx (i - 1) }

/-- `stack.insert(stack.end()-i, vch)`. -/
def insertTop (i : Nat) (vch : Valtype) : Exec Unit := do
  require (fun machine => decide (i ≤ machine.stack.length)) .outOfRange
  update fun machine => { machine with stack := machine.stack.insertIdx i vch }

/-- `swap(stacktop(-i), stacktop(-j))`. -/
def swapTop (i j : Nat) : Exec Unit := do
  let first ← stacktop i
  let second ← stacktop j
  update fun machine =>
    { machine with stack := (machine.stack.set (i - 1) second).set (j - 1) first }

end Exec

open Exec

section

variable (ctx : ScriptContext)

/-- `fRequireMinimal`. -/
def ScriptContext.fRequireMinimal : Bool := ctx.flags.has .minimalData

/-- `CScriptNum` of an element that was read. -/
def readNum (vch : Valtype) (nMaxNumSize : Nat := 4) : Exec Int :=
  expect (fun _ => scriptNum vch ctx.fRequireMinimal nMaxNumSize) .scriptNumError

/-- `CheckSignatureEncoding`, with `IsLowDERSignature`. -/
def checkSignatureEncoding (vchSig : Valtype) : Exec Unit :=
  if vchSig.isEmpty then pure ()
  else do
    check (!((ctx.flags.has .derSig || ctx.flags.has .lowS || ctx.flags.has .strictEnc) &&
      !isValidSignatureEncoding vchSig)) .sigDER
    check (!(ctx.flags.has .lowS && !isValidSignatureEncoding vchSig)) .sigDER
    check (!(ctx.flags.has .lowS && !ctx.checkLowS vchSig.dropLast)) .sigHighS
    check (!(ctx.flags.has .strictEnc && !isDefinedHashtypeSignature vchSig)) .sigHashtype

/-- `CheckPubKeyEncoding`. -/
def checkPubKeyEncoding (vchPubKey : Valtype) : Exec Unit :=
  check (!(ctx.flags.has .strictEnc && !isCompressedOrUncompressedPubKey vchPubKey)) .pubkeyType

/-! ## Opcodes -/

/-- The number that a numeric opcode makes of one. -/
def UnaryOp.apply (bn : Int) : UnaryOp → Int
  | add1 => bn + 1
  | sub1 => bn - 1
  | negate => -bn
  | abs => if bn < 0 then -bn else bn
  | not => if bn = 0 then 1 else 0
  | notEqual0 => if bn ≠ 0 then 1 else 0

/-- The number that a numeric opcode makes of two. -/
def BinaryOp.apply (bn1 bn2 : Int) : BinaryOp → Int
  | add => bn1 + bn2
  | sub => bn1 - bn2
  | boolAnd => if bn1 ≠ 0 ∧ bn2 ≠ 0 then 1 else 0
  | boolOr => if bn1 ≠ 0 ∨ bn2 ≠ 0 then 1 else 0
  | numEqual => if bn1 = bn2 then 1 else 0
  | numEqualVerify => if bn1 = bn2 then 1 else 0
  | numNotEqual => if bn1 ≠ bn2 then 1 else 0
  | lessThan => if bn1 < bn2 then 1 else 0
  | greaterThan => if bn1 > bn2 then 1 else 0
  | lessThanOrEqual => if bn1 ≤ bn2 then 1 else 0
  | greaterThanOrEqual => if bn1 ≥ bn2 then 1 else 0
  | min => if bn1 < bn2 then bn1 else bn2
  | max => if bn1 > bn2 then bn1 else bn2

/-- A truth value is pushed. The opcodes that verify take it off again, or fail. -/
def pushVerdict (verdict verify : Bool) (serror : ScriptError) : Exec Unit := do
  push (vchOfBool verdict)
  whenever verify do
    check verdict serror
    popstack

/-- `OP_CHECKLOCKTIMEVERIFY`, which is an upgradable NOP without its flag. -/
def execCheckLockTimeVerify : Exec Unit :=
  if !ctx.flags.has .checkLockTimeVerify then
    check (!ctx.flags.has .discourageUpgradableNops) .discourageUpgradableNops
  else do
    needStack 1
    let nLockTime ← readNum ctx (← stacktop 1) 5
    check (!decide (nLockTime < 0)) .negativeLocktime
    check (ctx.checker.checkLockTime nLockTime) .unsatisfiedLocktime

/-- The condition of a branch, which is false where the branch is not reached. -/
def branchValue (fExec negated : Bool) : Exec Bool :=
  if fExec then do
    needStack 1 .unbalancedConditional
    let vch ← stacktop 1
    popstack
    pure (castToBool vch != negated)
  else pure false

/-- `OP_IF` and `OP_NOTIF`. -/
def execBranch (fExec negated : Bool) : Exec Unit := do
  let fValue ← branchValue fExec negated
  update fun machine => { machine with vfExec := fValue :: machine.vfExec }

/-- The innermost branch is there, and is changed. -/
def changeBranch (change : Bool → List Bool → List Bool) : Exec Unit := do
  require (fun machine => !machine.vfExec.isEmpty) (.fails .unbalancedConditional)
  let (branch, outer) ← expect (fun machine => match machine.vfExec with
    | [] => none
    | branch :: outer => some (branch, outer)) .noBranch
  update fun machine => { machine with vfExec := change branch outer }

/-- `OP_VERIFY`. -/
def execVerify : Exec Unit := do
  needStack 1
  check (castToBool (← stacktop 1)) .verify
  popstack

/-- `OP_TOALTSTACK`. -/
def execToAltStack : Exec Unit := do
  needStack 1
  let vch ← stacktop 1
  update fun machine => { machine with altstack := vch :: machine.altstack }
  popstack

/-- `OP_FROMALTSTACK`. -/
def execFromAltStack : Exec Unit := do
  require (fun machine => decide (1 ≤ machine.altstack.length)) (.fails .invalidAltstackOperation)
  push (← expect (fun machine => machine.altstack[0]?) .outOfRange)
  require (fun machine => !machine.altstack.isEmpty) .stackEmpty
  update fun machine => { machine with altstack := machine.altstack.tail }

/-- `OP_2ROT`. The two elements are erased one after the other. -/
def execRot2 : Exec Unit := do
  needStack 6
  let vch1 ← stacktop 6
  let vch2 ← stacktop 5
  eraseTop 6
  eraseTop 5
  push vch1
  push vch2

/-- `OP_PICK` and `OP_ROLL`. -/
def execPick (roll : Bool) : Exec Unit := do
  needStack 2
  let n := getint (← readNum ctx (← stacktop 1))
  popstack
  require (fun machine => !(decide (n < 0) || decide (n ≥ machine.stack.length)))
    (.fails .invalidStackOperation)
  let vch ← stacktop (n.toNat + 1)
  whenever roll (eraseTop (n.toNat + 1))
  push vch

/-- `OP_EQUAL` and `OP_EQUALVERIFY`. -/
def execEqual (verify : Bool) : Exec Unit := do
  needStack 2
  let vch1 ← stacktop 2
  let vch2 ← stacktop 1
  popstack
  popstack
  pushVerdict (vch1 == vch2) verify .equalVerify

def execUnary (op : UnaryOp) : Exec Unit := do
  needStack 1
  let bn ← readNum ctx (← stacktop 1)
  popstack
  push (CScript.serializeNum (op.apply bn))

def execBinary (op : BinaryOp) : Exec Unit := do
  needStack 2
  let bn1 ← readNum ctx (← stacktop 2)
  let bn2 ← readNum ctx (← stacktop 1)
  popstack
  popstack
  push (CScript.serializeNum (op.apply bn1 bn2))
  whenever (op == .numEqualVerify) do
    let vch ← stacktop 1
    check (castToBool vch) .numEqualVerify
    popstack

/-- `OP_WITHIN`. -/
def execWithin : Exec Unit := do
  needStack 3
  let bn1 ← readNum ctx (← stacktop 3)
  let bn2 ← readNum ctx (← stacktop 2)
  let bn3 ← readNum ctx (← stacktop 1)
  popstack
  popstack
  popstack
  push (vchOfBool (decide (bn2 ≤ bn1) && decide (bn1 < bn3)))

def execHash (op : HashOp) : Exec Unit := do
  needStack 1
  let vch ← stacktop 1
  popstack
  push (ctx.hash op vch)

/-- `OP_CHECKSIG` and `OP_CHECKSIGVERIFY`. -/
def execCheckSig (verify : Bool) : Exec Unit := do
  needStack 2
  let vchSig ← stacktop 2
  let vchPubKey ← stacktop 1
  let scriptCode ← ask fun machine => (CScript.pushBytes vchSig).findAndDelete machine.codeHash
  checkSignatureEncoding ctx vchSig
  checkPubKeyEncoding ctx vchPubKey
  popstack
  popstack
  pushVerdict (ctx.checker.checkSig vchSig vchPubKey scriptCode) verify .checkSigVerify

/-- The loop over the signatures of `OP_CHECKMULTISIG`, while there are no more of them left
than keys. -/
def checkSigs (scriptCode : CScript) : Nat → Nat → Nat → Nat → Exec Bool
  | _, 0, _, _ => pure true
  | 0, _ + 1, _, _ => pure false
  | nKeysCount + 1, nSigsCount + 1, isig, ikey => do
      let vchSig ← stacktop isig
      let vchPubKey ← stacktop ikey
      checkSignatureEncoding ctx vchSig
      checkPubKeyEncoding ctx vchPubKey
      let fOk := ctx.checker.checkSig vchSig vchPubKey scriptCode
      let left := if fOk then nSigsCount else nSigsCount + 1
      if left > nKeysCount then pure false
      else checkSigs scriptCode nKeysCount left (if fOk then isig + 1 else isig) (ikey + 1)

/-- The script without the signatures. -/
def dropSignatures (isig : Nat) : Nat → CScript → Exec CScript
  | 0, scriptCode => pure scriptCode
  | nSigsCount + 1, scriptCode => do
      let vchSig ← stacktop isig
      dropSignatures (isig + 1) nSigsCount ((CScript.pushBytes vchSig).findAndDelete scriptCode)

/-- As many elements are taken off. -/
def popMany : Nat → Exec Unit
  | 0 => pure ()
  | count + 1 => do
      popstack
      popMany count

/-- `OP_CHECKMULTISIG` and `OP_CHECKMULTISIGVERIFY`. -/
def execCheckMultiSig (verify : Bool) : Exec Unit := do
  needStack 1
  let keys := getint (← readNum ctx (← stacktop 1))
  check (!(decide (keys < 0) || decide (keys > 20))) .pubkeyCount
  let nKeysCount := keys.toNat
  update fun machine => { machine with nOpCount := machine.nOpCount + nKeysCount }
  require (fun machine => !decide (machine.nOpCount > 201)) (.fails .opCount)
  needStack (2 + nKeysCount)
  let sigs := getint (← readNum ctx (← stacktop (2 + nKeysCount)))
  check (!(decide (sigs < 0) || decide (sigs > keys))) .sigCount
  let nSigsCount := sigs.toNat
  let isig := 3 + nKeysCount
  needStack (isig + nSigsCount)
  let scriptCode ← dropSignatures isig nSigsCount (← ask Machine.codeHash)
  let fSuccess ← checkSigs ctx scriptCode nKeysCount nSigsCount isig 2
  popMany (isig + nSigsCount - 1)
  needStack 1
  let dummy ← stacktop 1
  check (!(ctx.flags.has .nullDummy && !dummy.isEmpty)) .sigNullDummy
  popstack
  pushVerdict fSuccess verify .checkMultiSigVerify

/-- The opcodes that move whole elements. -/
def execStack : Opcode → Exec Unit
  | .drop2 => do
      needStack 2
      popstack
      popstack
  | .dup2 => do
      needStack 2
      let vch1 ← stacktop 2
      let vch2 ← stacktop 1
      push vch1
      push vch2
  | .dup3 => do
      needStack 3
      let vch1 ← stacktop 3
      let vch2 ← stacktop 2
      let vch3 ← stacktop 1
      push vch1
      push vch2
      push vch3
  | .over2 => do
      needStack 4
      let vch1 ← stacktop 4
      let vch2 ← stacktop 3
      push vch1
      push vch2
  | .rot2 => execRot2
  | .swap2 => do
      needStack 4
      swapTop 4 2
      swapTop 3 1
  | .ifDup => do
      needStack 1
      let vch ← stacktop 1
      whenever (castToBool vch) (push vch)
  | .depth => do
      push (CScript.serializeNum (← ask fun machine => (machine.stack.length : Int)))
  | .drop => do
      needStack 1
      popstack
  | .dup => do
      needStack 1
      push (← stacktop 1)
  | .nip => do
      needStack 2
      eraseTop 2
  | .over => do
      needStack 2
      push (← stacktop 2)
  | .rot => do
      needStack 3
      swapTop 3 2
      swapTop 2 1
  | .swap => do
      needStack 2
      swapTop 2 1
  | .tuck => do
      needStack 2
      insertTop 2 (← stacktop 1)
  | .size => do
      needStack 1
      let vch ← stacktop 1
      push (CScript.serializeNum vch.length)
  | _ => fail .badOpcode

/-- The `switch` over the opcodes, with the script after the opcode. -/
def execute (fExec : Bool) (rest : CScript) (opcode : Opcode) : Exec Unit :=
  match opcode with
  | .smallInt n => push (CScript.serializeNum n)
  | .nop => pure ()
  | .checkLockTimeVerify => execCheckLockTimeVerify ctx
  | .upgradableNop =>
      check (!ctx.flags.has .discourageUpgradableNops) .discourageUpgradableNops
  | .branch negated => execBranch fExec negated
  | .otherwise => changeBranch fun branch outer => (!branch) :: outer
  | .endIf => changeBranch fun _ outer => outer
  | .verify => execVerify
  | .opReturn => fail .opReturn
  | .toAltStack => execToAltStack
  | .fromAltStack => execFromAltStack
  | .pick roll => execPick ctx roll
  | .equal verify => execEqual verify
  | .unary op => execUnary ctx op
  | .binary op => execBinary ctx op
  | .within => execWithin ctx
  | .hash op => execHash ctx op
  | .codeSeparator => update fun machine => { machine with codeHash := rest }
  | .checkSig verify => execCheckSig ctx verify
  | .checkMultiSig verify => execCheckMultiSig ctx verify
  | opcode => execStack opcode

/-! ## Scripts -/

/-- `MAX_SCRIPT_ELEMENT_SIZE`. -/
def maxScriptElementSize : Nat := 520

/-- An opcode with its data: it is executed if all branches are taken, and the opcodes of
branches always are. -/
def dispatch (opcode : UInt8) (vchPushValue : Valtype) (rest : CScript) (fExec : Bool) :
    Exec Unit :=
  if fExec && decide (opcode ≤ Opcode.opPushData4) then do
    check (!(ctx.fRequireMinimal && !checkMinimalPush vchPushValue opcode)) .minimalData
    push vchPushValue
  else if fExec || (decide (Opcode.opIf ≤ opcode) && decide (opcode ≤ Opcode.opEndIf)) then
    execute ctx fExec rest (Opcode.ofByte opcode)
  else pure ()

/-- One round of the loop. -/
def step : CScript.Instruction → Exec Unit
  | .unreadable => fail .badOpcode
  | .op opcode vchPushValue rest => do
      let fExec ← ask fun machine => machine.vfExec.all id
      check (!decide (vchPushValue.length > maxScriptElementSize)) .pushSize
      whenever (decide (opcode > Opcode.op16)) do
        update fun machine => { machine with nOpCount := machine.nOpCount + 1 }
        require (fun machine => !decide (machine.nOpCount > 201)) (.fails .opCount)
      check (Opcode.ofByte opcode != .disabled) .disabledOpcode
      dispatch ctx opcode vchPushValue rest fExec
      require (fun machine =>
        !decide (machine.stack.length + machine.altstack.length > 1000)) (.fails .stackSize)

/-- `EvalScript` before the handler of exceptions. -/
def runScript (script : CScript) : Exec Unit := do
  check (!decide (script.length > 10000)) .scriptSize
  update fun machine => { machine with codeHash := script }
  script.instructions.forM (step ctx)
  require (fun machine => machine.vfExec.isEmpty) (.fails .unbalancedConditional)

/-- The error that an early end leaves behind: an exception is an unknown error. -/
def ScriptStop.serror : ScriptStop → ScriptError
  | fails serror => serror
  | _ => .unknownError

/-- `EvalScript`: the stack after the script, or the error. -/
def evalScript (stack : List Valtype) (script : CScript) : Except ScriptError (List Valtype) :=
  match runScript ctx script { stack } with
  | .ok (_, machine) => .ok machine.stack
  | .error stopped => .error stopped.serror

/-- How `VerifyScript` does not succeed. -/
inductive VerifyFailure where
  | fails (serror : ScriptError)
  /-- The assertion on the saved stack fails. -/
  | assertion
  deriving DecidableEq, Repr

/-- The stack after the script has an element on top that is true. -/
def checkTop (stack : List Valtype) : Except VerifyFailure Unit :=
  match stack with
  | [] => .error (.fails .evalFalse)
  | top :: _ => if castToBool top then .ok () else .error (.fails .evalFalse)

/-- The part of `VerifyScript` that evaluates the script whose hash was paid to. -/
def verifyScriptHash (scriptSig : CScript) (stackCopy : List Valtype) :
    Except VerifyFailure Unit :=
  if !scriptSig.isPushOnly then .error (.fails .sigPushOnly)
  else match stackCopy with
    | [] => .error .assertion
    | pubKeySerialized :: rest => do
        let stack ← (evalScript ctx rest pubKeySerialized).mapError .fails
        checkTop stack

/-- `VerifyScript`. -/
def verifyScript (scriptSig scriptPubKey : CScript) : Except VerifyFailure Unit := do
  if ctx.flags.has .sigPushOnly && !scriptSig.isPushOnly then .error (.fails .sigPushOnly)
  else do
    let stackCopy ← (evalScript ctx [] scriptSig).mapError .fails
    let stack ← (evalScript ctx stackCopy scriptPubKey).mapError .fails
    checkTop stack
    if ctx.flags.has .p2sh && scriptPubKey.isPayToScriptHash then
      verifyScriptHash ctx scriptSig stackCopy
    else .ok ()

end

end GiantCore
