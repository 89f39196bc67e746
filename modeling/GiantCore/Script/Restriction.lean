import GiantCore.Foundation.Checks
import GiantCore.Script.Interpreter

/-! # More flags only restrict

A script that succeeds under a set of flags succeeds with the same stack under every
smaller set, except that the smaller set must not discourage the upgradable NOPs: the
opcode `OP_CHECKLOCKTIMEVERIFY` is one of them only without its own flag.

Each opcode is compared with itself under more flags. Most do not read the flags at all.
-/

namespace GiantCore

open GiantCore.Foundation GiantCore.Foundation.Program Exec

/-- The same call with other flags. -/
def ScriptContext.withFlags (ctx : ScriptContext) (flags : ScriptFlags) : ScriptContext :=
  { ctx with flags }

/-- The flags of the second set are at least those of the first, and the first does not
discourage the upgradable NOPs. -/
structure ScriptFlags.Restricted (flags strict : ScriptFlags) : Prop where
  subset : ∀ flag, flags.has flag = true → strict.has flag = true
  nops : flags.has .discourageUpgradableNops = false

/-- The subset of two bit sets, flag by flag. -/
theorem ScriptFlags.has_of_and {flags strict : ScriptFlags} (subset : flags &&& strict = flags)
    (flag : ScriptFlag) (has : flags.has flag = true) : strict.has flag = true := by
  unfold ScriptFlags.has at *
  rw [← subset, BitVec.getLsbD_and, Bool.and_eq_true] at has
  exact has.2

section

variable {ctx : ScriptContext} {strict : ScriptFlags}

/-- A test that is made only under a flag. -/
theorem restricts_check_flag {flag flagStrict passes : Bool} (serror : ScriptError)
    (subset : flag = true → flagStrict = true) :
    Restricts (check (!(flag && !passes)) serror) (check (!(flagStrict && !passes)) serror) := by
  apply Restricts.require
  intro _ kept
  cases flag with
  | false => rfl
  | true =>
      rw [subset rfl] at kept
      exact kept

/-- Stricter flags decode fewer numbers. -/
theorem restricts_readNum (restricted : ctx.flags.Restricted strict) (vch : Valtype)
    (nMaxNumSize : Nat) :
    Restricts (readNum ctx vch nMaxNumSize) (readNum (ctx.withFlags strict) vch nMaxNumSize) := by
  apply Restricts.expect
  intro _ value found
  unfold scriptNum at found ⊢
  split at found
  · cases found
  · rename_i short
    rw [if_neg short]
    split at found
    · cases found
    · rename_i minimal
      rw [if_neg]
      · exact found
      · intro padded
        rw [Bool.and_eq_true] at padded
        apply minimal
        rw [Bool.and_eq_true]
        exact ⟨restricted.subset _ padded.1, padded.2⟩

/-- Stricter flags let fewer encodings of a signature pass. -/
theorem restricts_checkSignatureEncoding (restricted : ctx.flags.Restricted strict)
    (vchSig : Valtype) :
    Restricts (checkSignatureEncoding ctx vchSig)
      (checkSignatureEncoding (ctx.withFlags strict) vchSig) := by
  unfold checkSignatureEncoding
  apply Restricts.ite
  · intro _
    exact Restricts.refl _
  · intro _
    apply Restricts.bind
    · apply restricts_check_flag
      intro any
      simp only [Bool.or_eq_true] at any ⊢
      rcases any with (der | low) | enc
      · exact Or.inl (Or.inl (restricted.subset _ der))
      · exact Or.inl (Or.inr (restricted.subset _ low))
      · exact Or.inr (restricted.subset _ enc)
    · intro _
      apply Restricts.bind (restricts_check_flag _ (restricted.subset .lowS))
      intro _
      apply Restricts.bind (restricts_check_flag _ (restricted.subset .lowS))
      intro _
      exact restricts_check_flag _ (restricted.subset .strictEnc)

/-- Stricter flags let fewer encodings of a public key pass. -/
theorem restricts_checkPubKeyEncoding (restricted : ctx.flags.Restricted strict)
    (vchPubKey : Valtype) :
    Restricts (checkPubKeyEncoding ctx vchPubKey)
      (checkPubKeyEncoding (ctx.withFlags strict) vchPubKey) :=
  restricts_check_flag _ (restricted.subset .strictEnc)

/-- The upgradable NOPs go through under the smaller set. -/
theorem restricts_nop (restricted : ctx.flags.Restricted strict) :
    Restricts (check (!ctx.flags.has .discourageUpgradableNops) .discourageUpgradableNops)
      (check (!strict.has .discourageUpgradableNops) .discourageUpgradableNops) := by
  apply Restricts.require
  intro _ _
  rw [restricted.nops]
  rfl

/-- Stricter flags restrict `OP_CHECKLOCKTIMEVERIFY`. -/
theorem restricts_execCheckLockTimeVerify (restricted : ctx.flags.Restricted strict) :
    Restricts (execCheckLockTimeVerify ctx) (execCheckLockTimeVerify (ctx.withFlags strict)) := by
  unfold execCheckLockTimeVerify
  cases weakFlag : ctx.flags.has .checkLockTimeVerify with
  | true =>
      have strictFlag : (ctx.withFlags strict).flags.has .checkLockTimeVerify = true :=
        restricted.subset _ weakFlag
      rw [strictFlag]
      apply Restricts.bind_right
      intro _
      apply Restricts.bind_right
      intro vch
      exact (restricts_readNum restricted vch 5).bind fun _ => Restricts.refl _
  | false =>
      cases strictFlag : (ctx.withFlags strict).flags.has .checkLockTimeVerify with
      | false => exact restricts_nop restricted
      | true =>
          -- the opcode is a NOP without its flag, and only tests with it
          have passes : check (!ctx.flags.has .discourageUpgradableNops)
              .discourageUpgradableNops = (pure () : Exec Unit) := by
            rw [restricted.nops]
            rfl
          simp only [Bool.not_false, if_true, Bool.not_true, Bool.false_eq_true, if_false, passes]
          apply ReadOnly.restricts
          apply (ReadOnly.require _ _).bind
          intro _
          apply (ReadOnly.expect _ _).bind
          intro vch
          apply (ReadOnly.expect _ _).bind
          intro nLockTime
          apply (ReadOnly.require _ _).bind
          intro _
          exact ReadOnly.require _ _

/-- Stricter flags restrict `OP_PICK` and `OP_ROLL`. -/
theorem restricts_execPick (restricted : ctx.flags.Restricted strict) (roll : Bool) :
    Restricts (execPick ctx roll) (execPick (ctx.withFlags strict) roll) := by
  apply Restricts.bind_right
  intro _
  apply Restricts.bind_right
  intro vch
  exact (restricts_readNum restricted vch 4).bind fun _ => Restricts.refl _

/-- Stricter flags restrict the operations on one number. -/
theorem restricts_execUnary (restricted : ctx.flags.Restricted strict) (op : UnaryOp) :
    Restricts (execUnary ctx op) (execUnary (ctx.withFlags strict) op) := by
  apply Restricts.bind_right
  intro _
  apply Restricts.bind_right
  intro vch
  exact (restricts_readNum restricted vch 4).bind fun _ => Restricts.refl _

/-- Stricter flags restrict the operations on two numbers. -/
theorem restricts_execBinary (restricted : ctx.flags.Restricted strict) (op : BinaryOp) :
    Restricts (execBinary ctx op) (execBinary (ctx.withFlags strict) op) := by
  apply Restricts.bind_right
  intro _
  apply Restricts.bind_right
  intro vch1
  apply (restricts_readNum restricted vch1 4).bind
  intro _
  apply Restricts.bind_right
  intro vch2
  exact (restricts_readNum restricted vch2 4).bind fun _ => Restricts.refl _

/-- Stricter flags restrict `OP_WITHIN`. -/
theorem restricts_execWithin (restricted : ctx.flags.Restricted strict) :
    Restricts (execWithin ctx) (execWithin (ctx.withFlags strict)) := by
  apply Restricts.bind_right
  intro _
  apply Restricts.bind_right
  intro vch1
  apply (restricts_readNum restricted vch1 4).bind
  intro _
  apply Restricts.bind_right
  intro vch2
  apply (restricts_readNum restricted vch2 4).bind
  intro _
  apply Restricts.bind_right
  intro vch3
  exact (restricts_readNum restricted vch3 4).bind fun _ => Restricts.refl _

/-- Stricter flags restrict `OP_CHECKSIG`. -/
theorem restricts_execCheckSig (restricted : ctx.flags.Restricted strict) (verify : Bool) :
    Restricts (execCheckSig ctx verify) (execCheckSig (ctx.withFlags strict) verify) := by
  apply Restricts.bind_right
  intro _
  apply Restricts.bind_right
  intro vchSig
  apply Restricts.bind_right
  intro vchPubKey
  apply Restricts.bind_right
  intro scriptCode
  apply (restricts_checkSignatureEncoding restricted vchSig).bind
  intro _
  exact (restricts_checkPubKeyEncoding restricted vchPubKey).bind fun _ => Restricts.refl _

/-- The loop over the signatures, by the number of keys. -/
theorem restricts_checkSigs (restricted : ctx.flags.Restricted strict) (scriptCode : CScript)
    (nKeysCount nSigsCount isig ikey : Nat) :
    Restricts (checkSigs ctx scriptCode nKeysCount nSigsCount isig ikey)
      (checkSigs (ctx.withFlags strict) scriptCode nKeysCount nSigsCount isig ikey) := by
  induction nKeysCount generalizing nSigsCount isig ikey with
  | zero =>
      cases nSigsCount with
      | zero => exact Restricts.refl _
      | succ => exact Restricts.refl _
  | succ nKeysCount ih =>
      cases nSigsCount with
      | zero => exact Restricts.refl _
      | succ nSigsCount =>
          rw [checkSigs, checkSigs]
          apply Restricts.bind_right
          intro vchSig
          apply Restricts.bind_right
          intro vchPubKey
          apply (restricts_checkSignatureEncoding restricted vchSig).bind
          intro _
          apply (restricts_checkPubKeyEncoding restricted vchPubKey).bind
          intro _
          apply Restricts.ite
          · intro _
            exact Restricts.refl _
          · intro _
            exact ih _ _ _

/-- Stricter flags restrict `OP_CHECKMULTISIG`. -/
theorem restricts_execCheckMultiSig (restricted : ctx.flags.Restricted strict) (verify : Bool) :
    Restricts (execCheckMultiSig ctx verify)
      (execCheckMultiSig (ctx.withFlags strict) verify) := by
  apply Restricts.bind_right
  intro _
  apply Restricts.bind_right
  intro first
  apply (restricts_readNum restricted first 4).bind
  intro keys
  apply Restricts.bind_right
  intro _
  apply Restricts.bind_right
  intro _
  apply Restricts.bind_right
  intro _
  apply Restricts.bind_right
  intro _
  apply Restricts.bind_right
  intro second
  apply (restricts_readNum restricted second 4).bind
  intro sigs
  apply Restricts.bind_right
  intro _
  apply Restricts.bind_right
  intro _
  apply Restricts.bind_right
  intro codeHash
  apply Restricts.bind_right
  intro scriptCode
  apply (restricts_checkSigs restricted scriptCode _ _ _ _).bind
  intro fSuccess
  apply Restricts.bind_right
  intro _
  apply Restricts.bind_right
  intro _
  apply Restricts.bind_right
  intro dummy
  apply (restricts_check_flag _ (restricted.subset .nullDummy)).bind
  intro _
  exact Restricts.refl _

/-! ## Scripts -/

/-- Stricter flags restrict every operation. -/
theorem restricts_execute (restricted : ctx.flags.Restricted strict) (fExec : Bool)
    (rest : CScript) (opcode : Opcode) :
    Restricts (execute ctx fExec rest opcode)
      (execute (ctx.withFlags strict) fExec rest opcode) := by
  cases opcode with
  | checkLockTimeVerify => exact restricts_execCheckLockTimeVerify restricted
  | upgradableNop => exact restricts_nop restricted
  | pick roll => exact restricts_execPick restricted roll
  | unary op => exact restricts_execUnary restricted op
  | binary op => exact restricts_execBinary restricted op
  | within => exact restricts_execWithin restricted
  | checkSig verify => exact restricts_execCheckSig restricted verify
  | checkMultiSig verify => exact restricts_execCheckMultiSig restricted verify
  | _ => exact Restricts.refl _

/-- Stricter flags restrict every opcode. -/
theorem restricts_dispatch (restricted : ctx.flags.Restricted strict) (opcode : UInt8)
    (vchPushValue : Valtype) (rest : CScript) (fExec : Bool) :
    Restricts (dispatch ctx opcode vchPushValue rest fExec)
      (dispatch (ctx.withFlags strict) opcode vchPushValue rest fExec) := by
  apply Restricts.ite
  · intro _
    exact (restricts_check_flag _ (restricted.subset .minimalData)).bind_left _
  · intro _
    apply Restricts.ite
    · intro _
      exact restricts_execute restricted fExec rest _
    · intro _
      exact Restricts.refl _

/-- Stricter flags restrict every instruction. -/
theorem restricts_step (restricted : ctx.flags.Restricted strict)
    (instruction : CScript.Instruction) :
    Restricts (step ctx instruction) (step (ctx.withFlags strict) instruction) := by
  cases instruction with
  | unreadable => exact Restricts.refl _
  | op opcode vchPushValue rest =>
      apply Restricts.bind_right
      intro fExec
      apply Restricts.bind_right
      intro _
      apply Restricts.bind_right
      intro _
      apply Restricts.bind_right
      intro _
      exact (restricts_dispatch restricted opcode vchPushValue rest fExec).bind_left _

/-- Stricter flags restrict every script. -/
theorem restricts_runScript (restricted : ctx.flags.Restricted strict) (script : CScript) :
    Restricts (runScript ctx script) (runScript (ctx.withFlags strict) script) := by
  apply Restricts.bind_right
  intro _
  apply Restricts.bind_right
  intro _
  exact (Restricts.forM _ (restricts_step restricted)).bind_left _

/-- `EvalScript` succeeds with the same stack under fewer flags. -/
theorem evalScript_of_restricted (restricted : ctx.flags.Restricted strict)
    {stack after : List Valtype} {script : CScript}
    (succeeds : evalScript (ctx.withFlags strict) stack script = .ok after) :
    evalScript ctx stack script = .ok after := by
  unfold evalScript at succeeds ⊢
  split at succeeds
  · rename_i machine ended
    rw [restricts_runScript restricted script _ _ _ ended]
    exact succeeds
  · cases succeeds

/-- What passes the script for a hash under stricter flags passes under weaker ones. -/
theorem verifyScriptHash_of_restricted (restricted : ctx.flags.Restricted strict)
    {scriptSig : CScript} {stackCopy : List Valtype}
    (succeeds : verifyScriptHash (ctx.withFlags strict) scriptSig stackCopy = .ok ()) :
    verifyScriptHash ctx scriptSig stackCopy = .ok () := by
  unfold verifyScriptHash at succeeds ⊢
  split at succeeds
  · cases succeeds
  · rename_i pushes
    rw [if_neg pushes]
    split at succeeds
    · cases succeeds
    · obtain ⟨stack, evaluated, top⟩ := Checks.bind_eq_ok.mp succeeds
      rw [Checks.mapError_eq_ok] at evaluated
      apply Checks.bind_eq_ok.mpr
      refine ⟨stack, ?_, top⟩
      rw [Checks.mapError_eq_ok]
      exact evalScript_of_restricted restricted evaluated

end

/-- **Flags only restrict.** A script that verifies under a set of flags verifies under every
subset that does not discourage the upgradable NOPs. -/
theorem verifyScript_of_subset (ctx : ScriptContext) (flags strict : ScriptFlags)
    (scriptSig scriptPubKey : CScript) (subset : flags &&& strict = flags)
    (nops : flags.has .discourageUpgradableNops = false)
    (succeeds : verifyScript (ctx.withFlags strict) scriptSig scriptPubKey = .ok ()) :
    verifyScript (ctx.withFlags flags) scriptSig scriptPubKey = .ok () := by
  have restricted : (ctx.withFlags flags).flags.Restricted strict :=
    ⟨ScriptFlags.has_of_and subset, nops⟩
  have same : ctx.withFlags strict = (ctx.withFlags flags).withFlags strict := rfl
  rw [same] at succeeds
  unfold verifyScript at succeeds ⊢
  split at succeeds
  · cases succeeds
  · rename_i pushes
    rw [if_neg]
    · obtain ⟨stackCopy, first, succeeds⟩ := Checks.bind_eq_ok.mp succeeds
      obtain ⟨stack, second, succeeds⟩ := Checks.bind_eq_ok.mp succeeds
      obtain ⟨_, top, succeeds⟩ := Checks.bind_eq_ok.mp succeeds
      rw [Checks.mapError_eq_ok] at first second
      apply Checks.bind_eq_ok.mpr
      refine ⟨stackCopy, ?_, Checks.bind_eq_ok.mpr ⟨stack, ?_, Checks.bind_eq_ok.mpr
        ⟨(), top, ?_⟩⟩⟩
      · rw [Checks.mapError_eq_ok]
        exact evalScript_of_restricted restricted first
      · rw [Checks.mapError_eq_ok]
        exact evalScript_of_restricted restricted second
      · -- without the flag the script hash is not looked at
        split
        · rename_i weak
          rw [Bool.and_eq_true] at weak
          rw [if_pos] at succeeds
          · exact verifyScriptHash_of_restricted restricted succeeds
          · rw [Bool.and_eq_true]
            exact ⟨restricted.subset _ weak.1, weak.2⟩
        · rfl
    · intro weak
      rw [Bool.and_eq_true] at weak
      apply pushes
      rw [Bool.and_eq_true]
      exact ⟨restricted.subset _ weak.1, weak.2⟩

/-- A call whose checker accepts every signature and every lock time, with plain stand-ins for
the hashes. -/
def ScriptContext.accepting : ScriptContext where
  flags := 0
  checker := { checkSig := fun _ _ _ => true, checkLockTime := fun _ => true }
  hash _ vch := vch
  checkLowS _ := true

/-- A lock time is verified under the standard flags together with its own, and the script is
valid in a block that is checked with `SCRIPT_VERIFY_P2SH` alone. -/
theorem verifyScript_of_subset_lockTime :
    verifyScript (ScriptContext.accepting.withFlags (standardScriptVerifyFlags ||| 0x200)) [0x51]
      [0xb1] = .ok () ∧
    verifyScript (ScriptContext.accepting.withFlags 1) [0x51] [0xb1] = .ok () := by
  have succeeds : verifyScript (ScriptContext.accepting.withFlags
      (standardScriptVerifyFlags ||| 0x200)) [0x51] [0xb1] = .ok () := by
    decide +kernel
  refine ⟨succeeds, ?_⟩
  apply verifyScript_of_subset _ 1 (standardScriptVerifyFlags ||| 0x200)
  · decide
  · decide
  · exact succeeds

end GiantCore
