import GiantCore.Script.Interpreter

/-! # The interpreter stays on its stacks

No opcode reads or takes an element below the bottom of the main stack, of the alternate
stack or of the open branches: the tests that an opcode makes first cover all it does after
them. What is left to the handler of exceptions are numbers that cannot be converted.

For each part of the interpreter an equation says when it is safe, in terms of the sizes of
the stacks; an opcode is then evaluated along these equations.
-/

namespace GiantCore

open GiantCore.Foundation GiantCore.Foundation.Program Exec

/-- The interpreter ends early by a test of its own, or on a number. -/
def ScriptStop.Guarded : ScriptStop → Prop
  | fails _ => True
  | scriptNumError => True
  | outOfRange => False
  | stackEmpty => False
  | noBranch => False

/-- A part of the interpreter is safe from a state, and ends in a postcondition. -/
def Safe {α : Type} (program : Exec α) (post : α → Machine → Prop) (machine : Machine) : Prop :=
  wp program ScriptStop.Guarded post machine

section

variable {α β : Type} {machine : Machine} {post : α → Machine → Prop}
  {done : Unit → Machine → Prop}

/-- The rule of a value. -/
@[simp] theorem safe_pure (value : α) : Safe (pure value) post machine ↔ post value machine :=
  wp_pure value

/-- The rule of two programs, one after the other. -/
@[simp] theorem safe_bind (program : Exec β) (next : β → Exec α) :
    Safe (program >>= next) post machine ↔
      Safe program (fun value after => Safe (next value) post after) machine :=
  wp_bind program next

/-- An error of the script is safe. -/
@[simp] theorem safe_fail (serror : ScriptError) : Safe (fail serror : Exec α) post machine :=
  trivial

/-- The rule of a read. -/
@[simp] theorem safe_ask (read : Machine → α) :
    Safe (ask read) post machine ↔ post (read machine) machine :=
  wp_ask read

/-- The rule of a change. -/
@[simp] theorem safe_update (change : Machine → Machine) :
    Safe (update change) done machine ↔ done () (change machine) :=
  wp_update change

/-- A test of the source. -/
@[simp] theorem safe_require_fails (kept : Machine → Bool) (serror : ScriptError) :
    Safe (require kept (.fails serror)) done machine ↔
      (kept machine = true → done () machine) := by
  unfold Safe
  rw [wp_require]
  cases kept machine with
  | true => simp
  | false => simp [ScriptStop.Guarded]

/-- After a check its condition holds. -/
@[simp] theorem safe_check (kept : Bool) (serror : ScriptError) :
    Safe (check kept serror) done machine ↔ (kept = true → done () machine) :=
  safe_require_fails _ _

/-- After the check the stack is deep enough. -/
@[simp] theorem safe_needStack (size : Nat) (serror : ScriptError) :
    Safe (needStack size serror) done machine ↔
      (size ≤ machine.stack.length → done () machine) := by
  unfold needStack
  rw [safe_require_fails, decide_eq_true_iff]

/-- A read that has to find something. -/
theorem safe_expect (read : Machine → Option α) {reason : ScriptStop}
    (unguarded : ¬ reason.Guarded) :
    Safe (expect read reason) post machine ↔
      (read machine).isSome = true ∧ ∀ value, read machine = some value → post value machine := by
  unfold Safe
  rw [wp_expect]
  cases read machine with
  | none => simp [unguarded]
  | some value => simp

/-- A read of the stack needs an element there. -/
@[simp] theorem safe_stacktop (i : Nat) {post : Valtype → Machine → Prop} :
    Safe (stacktop i) post machine ↔ (0 < i ∧ i ≤ machine.stack.length) ∧
      ∀ vch, machine.stack[i - 1]? = some vch → post vch machine := by
  unfold stacktop
  rw [safe_expect _ id]
  by_cases bottom : i = 0
  · simp [bottom]
  · have inside : i - 1 < machine.stack.length ↔ 0 < i ∧ i ≤ machine.stack.length := by omega
    simp [bottom, inside]

/-- A change that has to be in range. -/
theorem safe_require (kept : Machine → Bool) {reason : ScriptStop} (unguarded : ¬ reason.Guarded) :
    Safe (require kept reason) done machine ↔ kept machine = true ∧ done () machine := by
  unfold Safe
  rw [wp_require]
  cases kept machine with
  | true => simp
  | false => simp [unguarded]

/-- Taking from the stack needs an element. -/
@[simp] theorem safe_popstack :
    Safe popstack done machine ↔ 0 < machine.stack.length ∧
      done () { machine with stack := machine.stack.tail } := by
  unfold popstack
  rw [safe_bind, safe_require _ id]
  simp [List.length_pos_iff]

/-- The rule of a push. -/
@[simp] theorem safe_push (vch : Valtype) :
    Safe (push vch) done machine ↔ done () { machine with stack := vch :: machine.stack } :=
  Iff.rfl

/-- Erasing from the stack needs the element. -/
@[simp] theorem safe_eraseTop (i : Nat) :
    Safe (eraseTop i) done machine ↔ (0 < i ∧ i ≤ machine.stack.length) ∧
      done () { machine with stack := machine.stack.eraseIdx (i - 1) } := by
  unfold eraseTop
  rw [safe_bind, safe_require _ id, decide_eq_true_iff, safe_update]

/-- Inserting into the stack needs the elements above. -/
@[simp] theorem safe_insertTop (i : Nat) (vch : Valtype) :
    Safe (insertTop i vch) done machine ↔ i ≤ machine.stack.length ∧
      done () { machine with stack := machine.stack.insertIdx i vch } := by
  unfold insertTop
  rw [safe_bind, safe_require _ id, decide_eq_true_iff, safe_update]

/-- The rule of a part that may be left out. -/
@[simp] theorem safe_whenever (condition : Bool) (part : Exec Unit) :
    Safe (whenever condition part) done machine ↔
      if condition then Safe part done machine else done () machine := by
  unfold whenever
  cases condition with
  | true => rfl
  | false => rfl

/-- The rule of a number that is decoded. -/
@[simp] theorem safe_readNum (ctx : ScriptContext) (vch : Valtype) (nMaxNumSize : Nat)
    {post : Int → Machine → Prop} :
    Safe (readNum ctx vch nMaxNumSize) post machine ↔
      ∀ value, scriptNum vch ctx.fRequireMinimal nMaxNumSize = some value →
        post value machine := by
  unfold Safe readNum
  rw [wp_expect]
  simp [ScriptStop.Guarded]

/-- A weaker postcondition. -/
theorem Safe.mono {program : Exec α} {weaker : α → Machine → Prop}
    (safe : Safe program post machine)
    (implies : ∀ value after, post value after → weaker value after) :
    Safe program weaker machine :=
  wp_mono safe implies

end

/-! ## Opcodes -/

/-- A part of the interpreter is safe from every state. -/
def Bounded {α : Type} (program : Exec α) : Prop :=
  ∀ machine, Safe program (fun _ _ => True) machine

section

variable (ctx : ScriptContext)

/-- The verdict replaces what was read. -/
theorem bounded_pushVerdict (verdict verify : Bool) (serror : ScriptError) :
    Bounded (pushVerdict verdict verify serror) := by
  intro machine
  simp [pushVerdict]

/-- `OP_CHECKLOCKTIMEVERIFY` stays on the stack. -/
theorem bounded_execCheckLockTimeVerify : Bounded (execCheckLockTimeVerify ctx) := by
  intro machine
  unfold execCheckLockTimeVerify
  split
  · simp
  · simp

/-- `OP_IF` and `OP_NOTIF` stay on the stack. -/
theorem bounded_execBranch (fExec negated : Bool) : Bounded (execBranch fExec negated) := by
  intro machine
  cases fExec with
  | false => simp [execBranch, branchValue]
  | true =>
      simp only [execBranch, branchValue, if_true, safe_bind, safe_needStack, safe_stacktop,
        safe_popstack, safe_pure, safe_update, and_true]
      intro enough
      exact ⟨by omega, fun _ _ => enough⟩

/-- `OP_ELSE` and `OP_ENDIF` stay on the stack. -/
theorem bounded_changeBranch (change : Bool → List Bool → List Bool) :
    Bounded (changeBranch change) := by
  intro machine
  unfold changeBranch
  rw [safe_bind, safe_require_fails]
  intro opened
  rw [safe_bind, safe_expect _ id]
  cases branches : machine.vfExec with
  | nil => simp [branches] at opened
  | cons branch outer => simp

/-- `OP_VERIFY` stays on the stack. -/
theorem bounded_execVerify : Bounded execVerify := by
  intro machine
  simp only [execVerify, safe_bind, safe_needStack, safe_stacktop, safe_check, safe_popstack,
    and_true]
  intro enough
  exact ⟨by omega, fun _ _ _ => enough⟩

/-- `OP_TOALTSTACK` stays on the stack. -/
theorem bounded_execToAltStack : Bounded execToAltStack := by
  intro machine
  simp only [execToAltStack, safe_bind, safe_needStack, safe_stacktop, safe_update, safe_popstack,
    and_true]
  intro enough
  exact ⟨by omega, fun _ _ => enough⟩

/-- `OP_FROMALTSTACK` stays on the stacks. -/
theorem bounded_execFromAltStack : Bounded execFromAltStack := by
  intro machine
  unfold execFromAltStack
  rw [safe_bind, safe_require_fails]
  intro enough
  rw [decide_eq_true_iff] at enough
  rw [safe_bind, safe_expect _ id]
  have nonempty : machine.altstack ≠ [] := List.length_pos_iff.mp enough
  refine ⟨by simpa [List.length_pos_iff] using nonempty, ?_⟩
  intro vch _
  rw [safe_bind, safe_push, safe_bind, safe_require _ id, safe_update]
  exact ⟨by simpa using nonempty, trivial⟩

/-- `OP_PICK` and `OP_ROLL` read inside the stack. -/
theorem bounded_execPick (roll : Bool) : Bounded (execPick ctx roll) := by
  intro machine
  unfold execPick
  simp only [safe_bind, safe_needStack, safe_stacktop, safe_readNum, safe_popstack,
    safe_require_fails, safe_whenever, safe_eraseTop, safe_push]
  intro enough
  refine ⟨by omega, ?_⟩
  intro vch _ value _
  refine ⟨by omega, ?_⟩
  intro inside
  simp only [Bool.not_eq_true', Bool.or_eq_false_iff, decide_eq_false_iff_not] at inside
  refine ⟨by omega, ?_⟩
  intro _ _
  cases roll with
  | false => trivial
  | true => exact ⟨by omega, trivial⟩

/-- `OP_EQUAL` and `OP_EQUALVERIFY` stay on the stack. -/
theorem bounded_execEqual (verify : Bool) : Bounded (execEqual verify) := by
  intro machine
  simp only [execEqual, safe_bind, safe_needStack, safe_stacktop, safe_popstack, List.length_tail]
  intro enough
  refine ⟨by omega, fun _ _ => ⟨by omega, fun _ _ => ⟨by omega, by omega, ?_⟩⟩⟩
  exact bounded_pushVerdict _ _ _ _

/-- The operations on one number stay on the stack. -/
theorem bounded_execUnary (op : UnaryOp) : Bounded (execUnary ctx op) := by
  intro machine
  simp only [execUnary, safe_bind, safe_needStack, safe_stacktop, safe_readNum, safe_popstack,
    safe_push, and_true]
  intro enough
  exact ⟨by omega, fun _ _ _ _ => enough⟩

/-- The operations on two numbers stay on the stack. -/
theorem bounded_execBinary (op : BinaryOp) : Bounded (execBinary ctx op) := by
  intro machine
  simp only [execBinary, safe_bind, safe_needStack, safe_stacktop, safe_readNum, safe_popstack,
    safe_push, safe_whenever, safe_check, List.length_tail, List.length_cons]
  intro enough
  refine ⟨by omega, fun _ _ _ _ => ⟨by omega, fun _ _ _ _ => ⟨by omega, by omega, ?_⟩⟩⟩
  split
  · simp
  · trivial

/-- `OP_WITHIN` stays on the stack. -/
theorem bounded_execWithin : Bounded (execWithin ctx) := by
  intro machine
  simp only [execWithin, safe_bind, safe_needStack, safe_stacktop, safe_readNum, safe_popstack,
    safe_push, List.length_tail]
  intro enough
  refine ⟨by omega, fun _ _ _ _ => ⟨by omega, fun _ _ _ _ => ⟨by omega, fun _ _ _ _ => ?_⟩⟩⟩
  exact ⟨by omega, by omega, by omega, trivial⟩

/-- The hash operations stay on the stack. -/
theorem bounded_execHash (op : HashOp) : Bounded (execHash ctx op) := by
  intro machine
  simp only [execHash, safe_bind, safe_needStack, safe_stacktop, safe_popstack, safe_push,
    and_true]
  intro enough
  exact ⟨by omega, fun _ _ => enough⟩

/-- The opcodes that move elements. -/
theorem bounded_execStack (opcode : Opcode) : Bounded (execStack opcode) := by
  intro machine
  cases opcode <;>
    simp only [execStack, execRot2, swapTop, safe_bind, safe_needStack, safe_stacktop,
      safe_popstack, safe_push, safe_eraseTop, safe_insertTop, safe_whenever, safe_ask,
      safe_update, safe_fail, List.length_tail, List.length_set, List.length_eraseIdx,
      implies_true, and_true, ite_self] <;>
    grind

/-! ## Signatures -/

section

variable {machine : Machine} {done : Unit → Machine → Prop}

/-- The encodings are only tested. -/
theorem safe_checkSignatureEncoding (vchSig : Valtype) (kept : done () machine) :
    Safe (checkSignatureEncoding ctx vchSig) done machine := by
  unfold checkSignatureEncoding
  split
  · exact (safe_pure ()).mpr kept
  · simp only [safe_bind, safe_check]
    intro _ _ _ _
    exact kept

/-- The check of an encoding reads no stack. -/
theorem safe_checkPubKeyEncoding (vchPubKey : Valtype) (kept : done () machine) :
    Safe (checkPubKeyEncoding ctx vchPubKey) done machine :=
  (safe_check _ _).mpr fun _ => kept

/-- The signatures from an index on are on the stack. -/
theorem safe_dropSignatures {isig nSigsCount : Nat} (positive : 0 < isig)
    (enough : isig + nSigsCount ≤ machine.stack.length + 1) (scriptCode : CScript) :
    Safe (dropSignatures isig nSigsCount scriptCode) (fun _ after => after = machine) machine := by
  induction nSigsCount generalizing isig scriptCode with
  | zero => rfl
  | succ nSigsCount ih =>
      rw [dropSignatures, safe_bind, safe_stacktop]
      refine ⟨by omega, ?_⟩
      intro vchSig _
      exact ih (Nat.succ_pos isig) (by omega) _

/-- The signatures and the keys that are left are on the stack, by the number of keys. -/
theorem safe_checkSigs (scriptCode : CScript) {nKeysCount nSigsCount isig ikey : Nat}
    (positive : 0 < isig ∧ 0 < ikey)
    (sigs : isig + nSigsCount ≤ machine.stack.length + 1)
    (keys : ikey + nKeysCount ≤ machine.stack.length + 1) :
    Safe (checkSigs ctx scriptCode nKeysCount nSigsCount isig ikey)
      (fun _ after => after = machine) machine := by
  induction nKeysCount generalizing nSigsCount isig ikey with
  | zero =>
      cases nSigsCount with
      | zero => rfl
      | succ => rfl
  | succ nKeysCount ih =>
      cases nSigsCount with
      | zero => rfl
      | succ nSigsCount =>
          rw [checkSigs, safe_bind, safe_stacktop]
          refine ⟨by omega, ?_⟩
          intro vchSig _
          rw [safe_bind, safe_stacktop]
          refine ⟨by omega, ?_⟩
          intro vchPubKey _
          rw [safe_bind]
          apply safe_checkSignatureEncoding
          rw [safe_bind]
          apply safe_checkPubKeyEncoding
          cases ctx.checker.checkSig vchSig vchPubKey scriptCode with
          | true =>
              simp only [if_true]
              split
              · rfl
              · exact ih ⟨by omega, by omega⟩ (by omega) (by omega)
          | false =>
              simp only [Bool.false_eq_true, if_false]
              split
              · rfl
              · exact ih ⟨by omega, by omega⟩ (by omega) (by omega)

/-- Enough elements can be taken from the stack. -/
theorem safe_popMany {count : Nat} (enough : count ≤ machine.stack.length) :
    Safe (popMany count) (fun _ after => after.stack.length = machine.stack.length - count)
      machine := by
  induction count generalizing machine with
  | zero => rfl
  | succ count ih =>
      rw [popMany, safe_bind, safe_popstack]
      refine ⟨by omega, ?_⟩
      have rest : count ≤ ({ machine with
          stack := machine.stack.tail } : Machine).stack.length := by
        rw [List.length_tail]
        omega
      apply Safe.mono (ih rest)
      intro _ after size
      rw [size, List.length_tail]
      omega

end

/-- `OP_CHECKSIG` stays on the stack. -/
theorem bounded_execCheckSig (verify : Bool) : Bounded (execCheckSig ctx verify) := by
  intro machine
  unfold execCheckSig
  simp only [safe_bind, safe_needStack, safe_stacktop, safe_ask]
  intro enough
  refine ⟨by omega, fun vchSig _ => ⟨by omega, fun vchPubKey _ => ?_⟩⟩
  apply safe_checkSignatureEncoding
  apply safe_checkPubKeyEncoding
  rw [safe_popstack]
  refine ⟨by omega, ?_⟩
  rw [safe_popstack, List.length_tail]
  exact ⟨by omega, bounded_pushVerdict _ _ _ _⟩

/-- The counts are tested against the stack before any signature or key is read. -/
theorem bounded_execCheckMultiSig (verify : Bool) : Bounded (execCheckMultiSig ctx verify) := by
  intro machine
  unfold execCheckMultiSig
  simp only [safe_bind, safe_needStack, safe_stacktop, safe_readNum, safe_check, safe_update,
    safe_require_fails, safe_ask]
  intro _
  refine ⟨by omega, ?_⟩
  intro _ _ value _
  generalize getint value = keys
  intro keyCount _ enoughKeys
  refine ⟨by omega, ?_⟩
  intro _ _ value _
  generalize getint value = sigs
  intro sigCount enoughSigs
  simp only [Bool.not_eq_true', Bool.or_eq_false_iff, decide_eq_false_iff_not, not_lt] at sigCount
  apply Safe.mono (safe_dropSignatures (by omega) (by dsimp only at enoughSigs ⊢; omega) _)
  rintro scriptCode after rfl
  apply Safe.mono (safe_checkSigs ctx scriptCode (by omega) (by dsimp only at enoughSigs ⊢; omega)
    (by dsimp only at enoughSigs ⊢; omega))
  rintro fSuccess after rfl
  apply Safe.mono (safe_popMany (by dsimp only at enoughSigs ⊢; omega))
  intro _ cleaned _ dummy
  refine ⟨by omega, ?_⟩
  intro _ _ _
  rw [safe_popstack]
  exact ⟨dummy, bounded_pushVerdict _ _ _ _⟩

/-! ## Scripts -/

/-- Every operation stays on the stack. -/
theorem bounded_execute (fExec : Bool) (rest : CScript) (opcode : Opcode) :
    Bounded (execute ctx fExec rest opcode) := by
  intro machine
  unfold execute
  -- one case for each opcode of the switch, and the opcodes that move elements at last
  split
  · trivial
  · trivial
  · exact bounded_execCheckLockTimeVerify ctx machine
  · exact (safe_check _ _).mpr fun _ => trivial
  · exact bounded_execBranch fExec _ machine
  · exact bounded_changeBranch _ machine
  · exact bounded_changeBranch _ machine
  · exact bounded_execVerify machine
  · trivial
  · exact bounded_execToAltStack machine
  · exact bounded_execFromAltStack machine
  · exact bounded_execPick ctx _ machine
  · exact bounded_execEqual _ machine
  · exact bounded_execUnary ctx _ machine
  · exact bounded_execBinary ctx _ machine
  · exact bounded_execWithin ctx machine
  · exact bounded_execHash ctx _ machine
  · trivial
  · exact bounded_execCheckSig ctx _ machine
  · exact bounded_execCheckMultiSig ctx _ machine
  · exact bounded_execStack _ machine

/-- Every opcode stays on the stack, executed or not. -/
theorem bounded_dispatch (opcode : UInt8) (vchPushValue : Valtype) (rest : CScript)
    (fExec : Bool) : Bounded (dispatch ctx opcode vchPushValue rest fExec) := by
  intro machine
  unfold dispatch
  split
  · simp
  · split
    · exact bounded_execute ctx fExec rest _ machine
    · trivial

/-- Every instruction stays on the stack. -/
theorem bounded_step (instruction : CScript.Instruction) : Bounded (step ctx instruction) := by
  intro machine
  cases instruction with
  | unreadable => trivial
  | op opcode vchPushValue rest =>
      unfold step
      simp only [safe_bind, safe_ask, safe_check, safe_whenever, safe_update, safe_require_fails]
      intro _
      split
      · intro _ _
        exact Safe.mono (bounded_dispatch ctx opcode vchPushValue rest _ _) fun _ _ _ _ => trivial
      · intro _
        exact Safe.mono (bounded_dispatch ctx opcode vchPushValue rest _ _) fun _ _ _ _ => trivial

/-- Every script stays on the stack. -/
theorem bounded_runScript (script : CScript) : Bounded (runScript ctx script) := by
  intro machine
  unfold runScript
  simp only [safe_bind, safe_check, safe_update, safe_require_fails]
  intro _
  have rounds : ∀ instruction ∈ script.instructions, ∀ state, True →
      wp (step ctx instruction) ScriptStop.Guarded (fun _ _ => True) state := by
    intro instruction _ state _
    exact bounded_step ctx instruction state
  exact Safe.mono (wp_forM rounds trivial) fun _ _ _ _ => trivial

/-- `OP_HASH160` fails on an empty stack. -/
theorem step_hash160 (rest codeHash : CScript) :
    step ctx (.op 0xa9 [] rest) { stack := [], codeHash } =
      .error (.fails .invalidStackOperation) :=
  rfl

/-- A script that starts with `OP_HASH160` does not succeed on an empty stack. -/
theorem evalScript_hash160_ne_ok (bytes : CScript) (after : List Valtype) :
    evalScript ctx [] (0xa9 :: bytes) ≠ .ok after := by
  have first : CScript.instructions (0xa9 :: bytes) =
      .op 0xa9 [] bytes :: CScript.instructions bytes := by
    rw [CScript.instructions]
    rfl
  have never : wp (runScript ctx (0xa9 :: bytes)) (fun _ => True) (fun _ _ => False)
      { stack := [] } := by
    unfold runScript
    rw [wp_bind, check, wp_require]
    split
    · rw [wp_bind, wp_update, wp_bind, first]
      change wp (step ctx (.op 0xa9 [] bytes) >>= fun _ =>
        (CScript.instructions bytes).forM (step ctx)) _ _ _
      rw [wp_bind, wp, step_hash160]
      trivial
    · trivial
  intro succeeds
  unfold evalScript at succeeds
  unfold wp at never
  split at succeeds
  · rename_i machine ended
    rw [ended] at never
    exact never
  · cases succeeds

/-- The read of the top after the script is guarded. -/
theorem checkTop_ne_assertion (stack : List Valtype) : checkTop stack ≠ .error .assertion := by
  unfold checkTop
  split
  · simp
  · split <;> simp

/-- A script that pays to a script hash starts with `OP_HASH160`. -/
theorem exists_of_isPayToScriptHash {script : CScript}
    (hash : script.isPayToScriptHash = true) : ∃ bytes, script = 0xa9 :: bytes := by
  simp only [CScript.isPayToScriptHash, Bool.and_eq_true, beq_iff_eq] at hash
  cases script with
  | nil => simp at hash
  | cons opcode bytes =>
      have first : opcode = 0xa9 := by simpa using hash.1.1.2
      exact ⟨bytes, by rw [first]⟩

/-- The script of a hash is evaluated on a stack that has an element. -/
theorem verifyScriptHash_ne_assertion {scriptSig : CScript} {stackCopy : List Valtype}
    (nonempty : stackCopy ≠ []) :
    verifyScriptHash ctx scriptSig stackCopy ≠ .error .assertion := by
  unfold verifyScriptHash
  split
  · simp
  · cases stackCopy with
    | nil => exact absurd rfl nonempty
    | cons pubKeySerialized rest =>
        change ((evalScript ctx rest pubKeySerialized).mapError VerifyFailure.fails >>= _) ≠ _
        cases evalScript ctx rest pubKeySerialized with
        | error serror => simp [Except.mapError, bind, Except.bind]
        | ok stack => exact checkTop_ne_assertion stack

/-- The saved stack is not empty where the output is paid to a script hash. -/
theorem verifyScript_ne_assertion (scriptSig scriptPubKey : CScript) :
    verifyScript ctx scriptSig scriptPubKey ≠ .error .assertion := by
  unfold verifyScript
  split
  · simp
  · cases evalScript ctx [] scriptSig with
    | error serror => simp [Except.mapError, bind, Except.bind]
    | ok stackCopy =>
        change ((evalScript ctx stackCopy scriptPubKey).mapError VerifyFailure.fails >>= _) ≠ _
        cases second : evalScript ctx stackCopy scriptPubKey with
        | error serror => simp [Except.mapError, bind, Except.bind]
        | ok stack =>
            change (checkTop stack >>= _) ≠ _
            cases top : checkTop stack with
            | error failure =>
                intro same
                cases same
                exact checkTop_ne_assertion stack top
            | ok =>
                change (if _ then _ else Except.ok ()) ≠ _
                split
                · rename_i pays
                  rw [Bool.and_eq_true] at pays
                  obtain ⟨bytes, rfl⟩ := exists_of_isPayToScriptHash pays.2
                  apply verifyScriptHash_ne_assertion
                  rintro rfl
                  exact evalScript_hash160_ne_ok ctx bytes stack second
                · simp

end

/-- **The interpreter never underflows.** From every state a script ends early only by a test
of the source or by a number that cannot be converted, and the assertion on the saved stack
never fails. -/
theorem interpreter_never_underflows (ctx : ScriptContext) :
    (∀ (script : CScript) (machine : Machine) (stopped : ScriptStop),
      runScript ctx script machine = .error stopped →
        (∃ serror, stopped = .fails serror) ∨ stopped = .scriptNumError) ∧
    ∀ scriptSig scriptPubKey : CScript,
      verifyScript ctx scriptSig scriptPubKey ≠ .error .assertion := by
  refine ⟨?_, verifyScript_ne_assertion ctx⟩
  intro script machine stopped ended
  have safe := bounded_runScript ctx script machine
  unfold Safe wp at safe
  rw [ended] at safe
  cases stopped with
  | fails serror => exact Or.inl ⟨serror, rfl⟩
  | scriptNumError => exact Or.inr rfl
  | outOfRange => exact safe.elim
  | stackEmpty => exact safe.elim
  | noBranch => exact safe.elim

end GiantCore
