import GiantCore.Primitives.Transaction

/-! # Scripts

The bytes of a script as `script.h` and `script.cpp` read them: opcodes with the data they
push, numbers on the stack, and the encodings of signatures and keys that
`interpreter.cpp` tests. Data on the stack are byte strings.
-/

namespace GiantCore

/-- `valtype`. -/
abbrev Valtype := List UInt8

/-! ## Opcodes -/

/-- The numeric opcodes with one operand. -/
inductive UnaryOp where
  | add1 | sub1 | negate | abs | not | notEqual0
  deriving DecidableEq, Repr

/-- The numeric opcodes with two operands. -/
inductive BinaryOp where
  | add | sub | boolAnd | boolOr | numEqual | numEqualVerify | numNotEqual | lessThan
  | greaterThan | lessThanOrEqual | greaterThanOrEqual | min | max
  deriving DecidableEq, Repr

/-- The hash opcodes. -/
inductive HashOp where
  | ripemd160 | sha1 | sha256 | hash160 | hash256
  deriving DecidableEq, Repr

/-- `opcodetype`, as the interpreter tells opcodes apart. -/
inductive Opcode where
  /-- Up to `OP_PUSHDATA4`. -/
  | pushData
  /-- `OP_1NEGATE` and `OP_1` to `OP_16`, with the number. -/
  | smallInt (n : Int)
  | nop
  | checkLockTimeVerify
  /-- `OP_NOP1` and `OP_NOP3` to `OP_NOP10`. -/
  | upgradableNop
  /-- `OP_IF`, and `OP_NOTIF` with a negation. -/
  | branch (negated : Bool)
  | otherwise
  | endIf
  | verify
  | opReturn
  | toAltStack | fromAltStack
  | drop2 | dup2 | dup3 | over2 | rot2 | swap2
  | ifDup | depth | drop | dup | nip | over
  /-- `OP_PICK`, and `OP_ROLL` which takes the element out. -/
  | pick (roll : Bool)
  | rot | swap | tuck | size
  /-- `OP_EQUAL` and `OP_EQUALVERIFY`. -/
  | equal (verify : Bool)
  | unary (op : UnaryOp)
  | binary (op : BinaryOp)
  | within
  | hash (op : HashOp)
  | codeSeparator
  /-- `OP_CHECKSIG` and `OP_CHECKSIGVERIFY`. -/
  | checkSig (verify : Bool)
  /-- `OP_CHECKMULTISIG` and `OP_CHECKMULTISIGVERIFY`. -/
  | checkMultiSig (verify : Bool)
  /-- The opcodes that fail a script wherever they stand. -/
  | disabled
  /-- Everything else. -/
  | bad
  deriving DecidableEq, Repr

namespace Opcode

/-- `OP_PUSHDATA1`. -/
def opPushData1 : UInt8 := 0x4c

/-- `OP_PUSHDATA2`. -/
def opPushData2 : UInt8 := 0x4d

/-- `OP_PUSHDATA4`. -/
def opPushData4 : UInt8 := 0x4e

/-- `OP_16`. -/
def op16 : UInt8 := 0x60

/-- `OP_IF`. -/
def opIf : UInt8 := 0x63

/-- `OP_ENDIF`. -/
def opEndIf : UInt8 := 0x68

/-- The opcodes from `OP_NOP` on. -/
def table : List (UInt8 × Opcode) :=
  [(0x61, nop), (0x63, branch false), (0x64, branch true), (0x67, otherwise), (0x68, endIf),
    (0x69, verify), (0x6a, opReturn), (0x6b, toAltStack), (0x6c, fromAltStack), (0x6d, drop2),
    (0x6e, dup2), (0x6f, dup3), (0x70, over2), (0x71, rot2), (0x72, swap2), (0x73, ifDup),
    (0x74, depth), (0x75, drop), (0x76, dup), (0x77, nip), (0x78, .over), (0x79, pick false),
    (0x7a, pick true), (0x7b, rot), (0x7c, swap), (0x7d, tuck), (0x7e, disabled), (0x7f, disabled),
    (0x80, disabled), (0x81, disabled), (0x82, size), (0x83, disabled), (0x84, disabled),
    (0x85, disabled), (0x86, disabled), (0x87, equal false), (0x88, equal true),
    (0x8b, unary .add1), (0x8c, unary .sub1), (0x8d, disabled), (0x8e, disabled),
    (0x8f, unary .negate), (0x90, unary .abs), (0x91, unary .not), (0x92, unary .notEqual0),
    (0x93, binary .add), (0x94, binary .sub), (0x95, disabled), (0x96, disabled), (0x97, disabled),
    (0x98, disabled), (0x99, disabled), (0x9a, binary .boolAnd), (0x9b, binary .boolOr),
    (0x9c, binary .numEqual), (0x9d, binary .numEqualVerify), (0x9e, binary .numNotEqual),
    (0x9f, binary .lessThan), (0xa0, binary .greaterThan), (0xa1, binary .lessThanOrEqual),
    (0xa2, binary .greaterThanOrEqual), (0xa3, binary .min), (0xa4, binary .max), (0xa5, within),
    (0xa6, hash .ripemd160), (0xa7, hash .sha1), (0xa8, hash .sha256), (0xa9, hash .hash160),
    (0xaa, hash .hash256), (0xab, codeSeparator), (0xac, checkSig false), (0xad, checkSig true),
    (0xae, checkMultiSig false), (0xaf, checkMultiSig true), (0xb0, upgradableNop),
    (0xb1, checkLockTimeVerify), (0xb2, upgradableNop), (0xb3, upgradableNop),
    (0xb4, upgradableNop), (0xb5, upgradableNop), (0xb6, upgradableNop), (0xb7, upgradableNop),
    (0xb8, upgradableNop), (0xb9, upgradableNop)]

def ofByte (byte : UInt8) : Opcode :=
  if byte ≤ opPushData4 then pushData
  else if byte = 0x4f ∨ (0x51 ≤ byte ∧ byte ≤ op16) then smallInt ((byte.toNat : Int) - 0x50)
  else (table.lookup byte).getD bad

end Opcode

/-! ## Reading a script -/

/-- A number of bytes in little endian order. -/
def littleEndian (bytes : List UInt8) : Nat :=
  bytes.foldr (fun byte rest => byte.toNat + 256 * rest) 0

@[simp] theorem littleEndian_nil : littleEndian [] = 0 := rfl

@[simp] theorem littleEndian_cons (byte : UInt8) (rest : List UInt8) :
    littleEndian (byte :: rest) = byte.toNat + 256 * littleEndian rest := rfl

namespace CScript

/-- `OP_CHECKSIG`. -/
def opCheckSig : UInt8 := 0xac

/-- The number of bytes after an opcode that hold the size of its data. -/
def sizeWidth (opcode : UInt8) : Nat :=
  if opcode < Opcode.opPushData1 then 0 else if opcode = Opcode.opPushData1 then 1
  else if opcode = Opcode.opPushData2 then 2 else 4

/-- The size of the data that an opcode pushes, and the bytes after the size. -/
def pushSize (opcode : UInt8) (bytes : List UInt8) : Option (Nat × List UInt8) :=
  if bytes.length < sizeWidth opcode then none
  else some (if opcode < Opcode.opPushData1 then opcode.toNat
    else littleEndian (bytes.take (sizeWidth opcode)), bytes.drop (sizeWidth opcode))

/-- `GetOp`: an opcode, the data that it pushes and the bytes after them. -/
def getOp : CScript → Option (UInt8 × Valtype × CScript)
  | [] => none
  | opcode :: rest =>
      if opcode ≤ Opcode.opPushData4 then
        match pushSize opcode rest with
        | none => none
        | some (nSize, rest) =>
            if rest.length < nSize then none else some (opcode, rest.take nSize, rest.drop nSize)
      else some (opcode, [], rest)

theorem length_of_pushSize {opcode : UInt8} {bytes rest : List UInt8} {nSize : Nat}
    (sized : pushSize opcode bytes = some (nSize, rest)) : rest.length ≤ bytes.length := by
  unfold pushSize at sized
  split at sized
  · cases sized
  · cases sized
    exact (List.drop_suffix _ _).length_le

/-- Every opcode takes a byte. -/
theorem length_of_getOp {script rest : CScript} {opcode : UInt8} {data : Valtype}
    (read : script.getOp = some (opcode, data, rest)) : rest.length < script.length := by
  cases script with
  | nil => cases read
  | cons first bytes =>
      rw [getOp] at read
      split at read
      · split at read
        · cases read
        · rename_i nSize after sized
          split at read
          · cases read
          · cases read
            have shorter := length_of_pushSize sized
            rw [List.length_drop, List.length_cons]
            omega
      · cases read
        exact Nat.lt_succ_self _

/-- An opcode with the data it pushes and the script after it, or the place where a script
cannot be read on. -/
inductive Instruction where
  | op (opcode : UInt8) (vchPushValue : Valtype) (rest : CScript)
  | unreadable
  deriving DecidableEq, Repr

/-- The instructions of a script, in the order in which they are read. -/
def instructions (script : CScript) : List Instruction :=
  if script.isEmpty then []
  else match read : script.getOp with
    | none => [.unreadable]
    | some (opcode, data, rest) =>
        have := length_of_getOp read
        .op opcode data rest :: instructions rest
termination_by script.length

/-- `IsPushOnly`. -/
def isPushOnly (script : CScript) : Bool :=
  script.instructions.all fun
    | .op opcode _ _ => !decide (opcode > Opcode.op16)
    | .unreadable => false

/-- `IsPayToScriptHash`. -/
def isPayToScriptHash (script : CScript) : Bool :=
  script.length == 23 && script[0]? == some 0xa9 && script[1]? == some 0x14 &&
    script[22]? == some 0x87

/-- `operator<<` of a byte string. -/
def pushBytes (bytes : Valtype) : CScript :=
  let size := bytes.length
  let header :=
    if size < Opcode.opPushData1.toNat then [UInt8.ofNat size]
    else if size ≤ 0xff then [Opcode.opPushData1, UInt8.ofNat size]
    else if size ≤ 0xffff then
      [Opcode.opPushData2, UInt8.ofNat (size % 256), UInt8.ofNat (size / 256)]
    else [Opcode.opPushData4, UInt8.ofNat (size % 256), UInt8.ofNat (size / 256 % 256),
      UInt8.ofNat (size / 65536 % 256), UInt8.ofNat (size / 16777216)]
  header ++ bytes

/-- The script without the copies of a string at its start. -/
def dropCopies (copy : CScript) (script : CScript) : CScript :=
  if copy.isPrefixOf script = true ∧ copy ≠ [] then dropCopies copy (script.drop copy.length)
  else script
termination_by script.length
decreasing_by
  rename_i matched
  have shorter := (List.isPrefixOf_iff_prefix.mp matched.1).length_le
  have nonempty := List.length_pos_iff.mpr matched.2
  rw [List.length_drop]
  omega

theorem length_dropCopies (copy script : CScript) :
    (dropCopies copy script).length ≤ script.length := by
  fun_induction dropCopies copy script with
  | case1 script matched ih =>
      rw [List.length_drop] at ih
      omega
  | case2 script unmatched => exact Nat.le_refl _

/-- `FindAndDelete`: copies of a string are taken out where an opcode starts. -/
def findAndDelete (copy : CScript) (script : CScript) : CScript :=
  match read : (dropCopies copy script).getOp with
  | none => dropCopies copy script
  | some (_, _, rest) =>
      have := length_of_getOp read
      have := length_dropCopies copy script
      (dropCopies copy script).take ((dropCopies copy script).length - rest.length) ++
        findAndDelete copy rest
termination_by script.length

end CScript

/-! ## Numbers and truth values -/

/-- `CScriptNum::set_vch`: the sign is the highest bit of the last byte. -/
def scriptNumOfBytes (vch : Valtype) : Int :=
  match vch.getLast? with
  | none => 0
  | some top =>
      if top &&& 0x80 != 0 then -(littleEndian vch - 0x80 * 256 ^ (vch.length - 1) : Int)
      else littleEndian vch

/-- The number is not encoded with a byte that it does not need. -/
def isMinimalNum (vch : Valtype) : Bool :=
  match vch.reverse with
  | [] => true
  | [top] => top &&& 0x7f != 0
  | top :: next :: _ => top &&& 0x7f != 0 || next &&& 0x80 != 0

/-- `CScriptNum` of a byte string, or nothing where the constructor throws. -/
def scriptNum (vch : Valtype) (fRequireMinimal : Bool) (nMaxNumSize : Nat) : Option Int :=
  if vch.length > nMaxNumSize then none
  else if fRequireMinimal && !isMinimalNum vch then none
  else some (scriptNumOfBytes vch)

/-- `getint`: the nearest `int`. -/
def getint (value : Int) : Int := max (-2 ^ 31) (min (2 ^ 31 - 1) value)

/-- `CastToBool`: neither zero nor negative zero. -/
def castToBool (vch : Valtype) : Bool :=
  match vch.reverse with
  | [] => false
  | top :: rest => rest.any (· != 0) || (top != 0 && top != 0x80)

/-- `vchTrue` and `vchFalse`. -/
def vchOfBool (value : Bool) : Valtype := if value then [1] else []

/-! ## Encodings -/

/-- `IsCompressedOrUncompressedPubKey`. -/
def isCompressedOrUncompressedPubKey (vchPubKey : Valtype) : Bool :=
  match vchPubKey.head? with
  | some 0x04 => vchPubKey.length == 65
  | some 0x02 => vchPubKey.length == 33
  | some 0x03 => vchPubKey.length == 33
  | _ => false

/-- An integer of a signature: it is there, not negative and not padded. -/
def isValidDERInteger (sig : Valtype) (start length : Nat) : Bool :=
  let byte := fun i => sig.getD i 0
  byte start == 0x02 && length != 0 && byte (start + 2) &&& 0x80 == 0 &&
    !(decide (length > 1) && byte (start + 2) == 0 && byte (start + 3) &&& 0x80 == 0)

/-- `IsValidSignatureEncoding`. The size is tested before the bytes are read. -/
def isValidSignatureEncoding (sig : Valtype) : Bool :=
  let byte := fun i => sig.getD i 0
  let lenR := (byte 3).toNat
  let lenS := (byte (5 + lenR)).toNat
  decide (9 ≤ sig.length) && decide (sig.length ≤ 73) && byte 0 == 0x30 &&
    (byte 1).toNat == sig.length - 3 && decide (5 + lenR < sig.length) &&
    lenR + lenS + 7 == sig.length && isValidDERInteger sig 2 lenR &&
    isValidDERInteger sig (lenR + 4) lenS

/-- `IsDefinedHashtypeSignature`. -/
def isDefinedHashtypeSignature (vchSig : Valtype) : Bool :=
  match vchSig.getLast? with
  | none => false
  | some last => decide (1 ≤ last &&& 0x7f) && decide (last &&& 0x7f ≤ 3)

/-- `CheckMinimalPush`. -/
def checkMinimalPush (data : Valtype) (opcode : UInt8) : Bool :=
  match data with
  | [] => opcode == 0x00
  | [byte] =>
      if 1 ≤ byte ∧ byte ≤ 16 then opcode == 0x51 + (byte - 1)
      else if byte = 0x81 then opcode == 0x4f
      else opcode == 1
  | _ =>
      if data.length ≤ 75 then opcode.toNat == data.length
      else if data.length ≤ 255 then opcode == Opcode.opPushData1
      else if data.length ≤ 65535 then opcode == Opcode.opPushData2
      else true

end GiantCore
