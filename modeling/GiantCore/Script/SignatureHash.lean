import GiantCore.Script.Script
import GiantCore.Zerocoin.SpendScript

/-! # Signature hashes

What a signature signs, in the two ways of the source. `SignatureHash` of `interpreter.cpp` writes
the transaction with its changes while it is serialized; `SignatureHashOld` of the test suite
changes a copy and serializes that. Both hash the same bytes (`signatureHash_eq_old`) when the code
can be read to its end. Each function here returns the bytes that are hashed, and nothing where the
source returns one.
-/

namespace GiantCore

open CScript

/-! ## Serialization -/

/-- The bytes of an integer of a fixed width. -/
def writeInt (count : Nat) (value : Int) : List UInt8 :=
  fixedBytes count (BitVec.ofInt (8 * count) value).toNat

def COutPoint.serialize (out : COutPoint) : List UInt8 :=
  fixedBytes 32 out.hash.toNat ++ fixedBytes 4 out.n.toNat

def CTxIn.serialize (txin : CTxIn) : List UInt8 :=
  txin.prevout.serialize ++ serializeBytes txin.scriptSig ++ fixedBytes 4 txin.nSequence.toNat

def CTxOut.serialize (txout : CTxOut) : List UInt8 :=
  writeInt 8 txout.nValue ++ serializeBytes txout.scriptPubKey

/-- `txTmp`, a `CMutableTransaction` with all that is serialized. -/
structure TxTmp where
  nVersion : Int
  vin : List CTxIn
  vout : List CTxOut
  nLockTime : UInt32
  deriving DecidableEq, Repr

def TxTmp.serialize (tx : TxTmp) : List UInt8 :=
  writeInt 4 tx.nVersion ++
    (writeCompactSize tx.vin.length ++ tx.vin.flatMap CTxIn.serialize) ++
    (writeCompactSize tx.vout.length ++ tx.vout.flatMap CTxOut.serialize) ++
    fixedBytes 4 tx.nLockTime.toNat

/-- `OP_CODESEPARATOR`. -/
def opCodeSeparator : UInt8 := 0xab

namespace SigHash

/-- `SIGHASH_NONE`. -/
def none : UInt32 := 2

/-- `SIGHASH_SINGLE`. -/
def single : UInt32 := 3

/-- `SIGHASH_ANYONECANPAY`. -/
def anyoneCanPay : UInt32 := 0x80

end SigHash

/-! ## The streaming serializer -/

/-- Where the iterator of a `GetOp` that fails is left. -/
def CScript.failedAt : CScript → CScript
  | [] => []
  | opcode :: rest =>
      match pushSize opcode rest with
      | none => rest
      | some (_, after) => after

/-- The first loop of `SerializeScriptCode`. -/
def nCodeSeparators (it : CScript) : Nat :=
  match read : it.getOp with
  | none => 0
  | some (opcode, _, rest) =>
      have := length_of_getOp read
      (if opcode = opCodeSeparator then 1 else 0) + nCodeSeparators rest
termination_by it.length

/-- The second loop. An iterator is what is left of the script behind it. -/
def writeScriptCode (itBegin it : CScript) : List UInt8 :=
  match read : it.getOp with
  | none => if itBegin = [] then [] else itBegin.take (itBegin.length - it.failedAt.length)
  | some (opcode, _, rest) =>
      have := length_of_getOp read
      if opcode = opCodeSeparator then
        itBegin.take (itBegin.length - rest.length - 1) ++ writeScriptCode rest rest
      else writeScriptCode itBegin rest
termination_by it.length

/-- `SerializeScriptCode`. -/
def serializeScriptCode (scriptCode : CScript) : List UInt8 :=
  writeCompactSize (scriptCode.length - nCodeSeparators scriptCode) ++
    writeScriptCode scriptCode scriptCode

structure CTransactionSignatureSerializer where
  txTo : CTransaction
  scriptCode : CScript
  nIn : Nat
  fAnyoneCanPay : Bool
  fHashSingle : Bool
  fHashNone : Bool

namespace CTransactionSignatureSerializer

/-- The constructor. -/
def make (txTo : CTransaction) (scriptCode : CScript) (nIn : Nat) (nHashType : UInt32) :
    CTransactionSignatureSerializer :=
  { txTo, scriptCode, nIn
    fAnyoneCanPay := nHashType &&& SigHash.anyoneCanPay != 0
    fHashSingle := nHashType &&& 0x1f == SigHash.single
    fHashNone := nHashType &&& 0x1f == SigHash.none }

variable (s : CTransactionSignatureSerializer)

/-- `SerializeInput`, where there is one. -/
def serializeInput (nInput : Nat) : List UInt8 :=
  let nInput := if s.fAnyoneCanPay then s.nIn else nInput
  match s.txTo.vin[nInput]? with
  | none => []
  | some txin =>
      txin.prevout.serialize ++
        (if nInput ≠ s.nIn then serializeBytes [] else serializeScriptCode s.scriptCode) ++
        (if nInput ≠ s.nIn ∧ (s.fHashSingle || s.fHashNone) then writeInt 4 0
        else fixedBytes 4 txin.nSequence.toNat)

/-- `SerializeOutput`, where there is one. -/
def serializeOutput (nOutput : Nat) : List UInt8 :=
  if s.fHashSingle ∧ nOutput ≠ s.nIn then CTxOut.null.serialize
  else match s.txTo.vout[nOutput]? with
  | none => []
  | some txout => txout.serialize

def nInputs : Nat := if s.fAnyoneCanPay then 1 else s.txTo.vin.length

def nOutputs : Nat :=
  if s.fHashNone then 0 else if s.fHashSingle then s.nIn + 1 else s.txTo.vout.length

def serialize : List UInt8 :=
  writeInt 4 s.txTo.nVersion ++
    (writeCompactSize s.nInputs ++ (List.range s.nInputs).flatMap s.serializeInput) ++
    (writeCompactSize s.nOutputs ++ (List.range s.nOutputs).flatMap s.serializeOutput) ++
    fixedBytes 4 s.txTo.nLockTime.toNat

end CTransactionSignatureSerializer

/-- The bytes that `SignatureHash` hashes. -/
def signatureHash (scriptCode : CScript) (txTo : CTransaction) (nIn : Nat) (nHashType : UInt32) :
    Option (List UInt8) :=
  if nIn ≥ txTo.vin.length then none
  else if nHashType &&& 0x1f = SigHash.single ∧ nIn ≥ txTo.vout.length then none
  else
    let txTmp := CTransactionSignatureSerializer.make txTo scriptCode nIn nHashType
    some (txTmp.serialize ++ fixedBytes 4 nHashType.toNat)

/-! ## The reference -/

namespace TxTmp

/-- All inputs get an empty script, and the signed one gets the code. -/
def blankScripts (tx : TxTmp) (nIn : Nat) (scriptCode : CScript) : TxTmp :=
  let vin := tx.vin.map fun txin => { txin with scriptSig := [] }
  { tx with vin := vin.modify nIn fun txin => { txin with scriptSig := scriptCode } }

/-- The other inputs may be updated at will. -/
def freeSequences (tx : TxTmp) (nIn : Nat) : TxTmp :=
  { tx with vin := tx.vin.mapIdx fun i txin =>
      if i ≠ nIn then { txin with nSequence := 0 } else txin }

/-- The outputs up to one place, which are null but for the last. -/
def resizeOutputs (tx : TxTmp) (nOut : Nat) : TxTmp :=
  { tx with vout := (tx.vout.take (nOut + 1)).mapIdx fun i txout =>
      if i < nOut then CTxOut.null else txout }

/-- Only one input is left. -/
def onlyInput (tx : TxTmp) (nIn : Nat) : TxTmp :=
  match tx.vin[nIn]? with
  | none => tx
  | some txin => { tx with vin := (tx.vin.set 0 txin).take 1 }

end TxTmp

/-- The bytes that `SignatureHashOld` hashes. -/
def signatureHashOld (scriptCode : CScript) (txTo : CTransaction) (nIn : Nat)
    (nHashType : UInt32) : Option (List UInt8) :=
  if nIn ≥ txTo.vin.length then none
  else
    let txTmp : TxTmp := ⟨txTo.nVersion, txTo.vin, txTo.vout, txTo.nLockTime⟩
    let scriptCode := findAndDelete [opCodeSeparator] scriptCode
    let txTmp := txTmp.blankScripts nIn scriptCode
    let blanked :=
      if nHashType &&& 0x1f = SigHash.none then
        some ({ txTmp with vout := [] }.freeSequences nIn)
      else if nHashType &&& 0x1f = SigHash.single then
        if nIn ≥ txTmp.vout.length then none
        else some ((txTmp.resizeOutputs nIn).freeSequences nIn)
      else some txTmp
    blanked.map fun txTmp =>
      let txTmp := if nHashType &&& SigHash.anyoneCanPay != 0 then txTmp.onlyInput nIn else txTmp
      txTmp.serialize ++ fixedBytes 4 nHashType.toNat

/-! ## The code without its separators -/

/-- The operations of a script can be read up to its end. -/
def CScript.Parses (script : CScript) : Prop := Instruction.unreadable ∉ script.instructions

instance (script : CScript) : Decidable script.Parses :=
  inferInstanceAs (Decidable (Instruction.unreadable ∉ script.instructions))

/-- A script that parses and is not empty begins with an operation. -/
theorem CScript.Parses.getOp {script : CScript} (parses : script.Parses) (filled : script ≠ []) :
    ∃ opcode data rest, script.getOp = some (opcode, data, rest) ∧ rest.Parses := by
  unfold Parses at parses
  rw [instructions, if_neg (by simpa using filled)] at parses
  split at parses
  · simp at parses
  · rename_i opcode data rest read
    refine ⟨opcode, data, rest, read, ?_⟩
    rw [List.mem_cons, not_or] at parses
    exact parses.2

/-- An operation is its opcode with what belongs to it, and a separator is nothing else. -/
theorem CScript.getOp_suffix {script rest : CScript} {opcode : UInt8} {data : Valtype}
    (read : script.getOp = some (opcode, data, rest)) :
    ∃ bytes, script = opcode :: bytes ∧ rest <:+ bytes ∧
      (opcode = opCodeSeparator → rest = bytes) := by
  cases script with
  | nil => cases read
  | cons first bytes =>
      rw [CScript.getOp] at read
      split at read
      · rename_i small
        split at read
        · cases read
        · rename_i nSize after sized
          split at read
          · cases read
          · cases read
            refine ⟨_, rfl, (List.drop_suffix _ _).trans ?_, ?_⟩
            · unfold pushSize at sized
              split at sized
              · cases sized
              · cases sized
                exact List.drop_suffix _ _
            · intro separator
              rw [separator] at small
              exact absurd small (by decide)
      · cases read
        exact ⟨_, rfl, List.suffix_refl _, fun _ => rfl⟩

/-- A separator is dropped. -/
theorem dropCopies_separator (rest : CScript) :
    dropCopies [opCodeSeparator] (opCodeSeparator :: rest) =
      dropCopies [opCodeSeparator] rest := by
  rw [dropCopies, if_pos (by simp)]
  rfl

/-- Another opcode stays. -/
theorem dropCopies_of_ne {opcode : UInt8} (other : opcode ≠ opCodeSeparator) (rest : CScript) :
    dropCopies [opCodeSeparator] (opcode :: rest) = opcode :: rest := by
  rw [dropCopies, if_neg (by simpa using fun same => other same.symm)]

/-- What is deleted in front, and the operation after it. -/
theorem findAndDelete_eq (copy script : CScript) :
    findAndDelete copy script =
      match (dropCopies copy script).getOp with
      | none => dropCopies copy script
      | some (_, _, rest) =>
          (dropCopies copy script).take ((dropCopies copy script).length - rest.length) ++
            findAndDelete copy rest := by
  rw [findAndDelete]
  split
  · rename_i read
    rw [read]
  · rename_i read
    dsimp only
    rw [read]

/-- Nothing is found in an empty script. -/
@[simp] theorem findAndDelete_nil (copy : CScript) : findAndDelete copy [] = [] := by
  have short := length_dropCopies copy []
  have empty : dropCopies copy [] = [] := List.eq_nil_of_length_eq_zero (by simpa using short)
  rw [findAndDelete_eq, empty]
  rfl

/-- A separator in front is deleted. -/
theorem findAndDelete_separator (rest : CScript) :
    findAndDelete [opCodeSeparator] (opCodeSeparator :: rest) =
      findAndDelete [opCodeSeparator] rest := by
  rw [findAndDelete_eq, dropCopies_separator, ← findAndDelete_eq]

/-- Another operation stays. -/
theorem findAndDelete_op {script rest : CScript} {opcode : UInt8} {data : Valtype}
    (read : script.getOp = some (opcode, data, rest)) (other : opcode ≠ opCodeSeparator) :
    findAndDelete [opCodeSeparator] script =
      script.take (script.length - rest.length) ++ findAndDelete [opCodeSeparator] rest := by
  obtain ⟨bytes, rfl, -, -⟩ := getOp_suffix read
  rw [findAndDelete_eq, dropCopies_of_ne other, read]

/-- A separator is counted, another operation is not. -/
theorem nCodeSeparators_op {script rest : CScript} {opcode : UInt8} {data : Valtype}
    (read : script.getOp = some (opcode, data, rest)) :
    nCodeSeparators script =
      (if opcode = opCodeSeparator then 1 else 0) + nCodeSeparators rest := by
  rw [nCodeSeparators]
  split
  · rename_i missing
    rw [read] at missing
    cases missing
  · rename_i found
    rw [read] at found
    cases found
    rfl

/-- A separator is left out, another operation is written. -/
theorem writeScriptCode_op {script rest : CScript} {opcode : UInt8} {data : Valtype}
    (itBegin : CScript) (read : script.getOp = some (opcode, data, rest)) :
    writeScriptCode itBegin script =
      if opcode = opCodeSeparator then
        itBegin.take (itBegin.length - rest.length - 1) ++ writeScriptCode rest rest
      else writeScriptCode itBegin rest := by
  rw [writeScriptCode]
  split
  · rename_i missing
    rw [read] at missing
    cases missing
  · rename_i found
    rw [read] at found
    cases found
    rfl

/-- There is no separator in an empty script. -/
@[simp] theorem nCodeSeparators_nil : nCodeSeparators [] = 0 := by
  rw [nCodeSeparators]
  rfl

/-- At the end, what is left is written. -/
@[simp] theorem writeScriptCode_nil (itBegin : CScript) : writeScriptCode itBegin [] = itBegin := by
  rw [writeScriptCode]
  split
  · split
    · rename_i empty
      exact empty.symm
    · exact List.take_length
  · rename_i read
    cases read

/-- The induction over the operations of a script that parses. -/
theorem CScript.Parses.induction {motive : CScript → Prop} (nil : motive [])
    (op : ∀ opcode data rest script, script.getOp = some (opcode, data, rest) → motive rest →
      motive script) {script : CScript} (parses : script.Parses) : motive script := by
  induction size : script.length using Nat.strong_induction_on generalizing script with
  | _ size ih =>
      subst size
      by_cases empty : script = []
      · rw [empty]
        exact nil
      · obtain ⟨opcode, data, rest, read, later⟩ := parses.getOp empty
        exact op opcode data rest script read (ih _ (length_of_getOp read) later rfl)

/-- The separators are the bytes that are taken out. -/
theorem length_findAndDelete {script : CScript} (parses : script.Parses) :
    (findAndDelete [opCodeSeparator] script).length + nCodeSeparators script = script.length := by
  refine parses.induction (motive := fun script =>
    (findAndDelete [opCodeSeparator] script).length + nCodeSeparators script = script.length)
    (by simp) ?_
  intro opcode data rest script read ih
  have shorter := length_of_getOp read
  rw [nCodeSeparators_op read]
  by_cases separator : opcode = opCodeSeparator
  · obtain ⟨bytes, rfl, -, same⟩ := getOp_suffix read
    obtain rfl := same separator
    subst separator
    rw [findAndDelete_separator, if_pos rfl, List.length_cons]
    omega
  · rw [findAndDelete_op read separator, if_neg separator, List.length_append, List.length_take]
    omega

/-- What the second loop writes is behind what it has not written yet. -/
theorem writeScriptCode_eq {script : CScript} (parses : script.Parses) :
    ∀ unwritten, writeScriptCode (unwritten ++ script) script =
      unwritten ++ findAndDelete [opCodeSeparator] script := by
  refine parses.induction (motive := fun script => ∀ unwritten,
    writeScriptCode (unwritten ++ script) script =
      unwritten ++ findAndDelete [opCodeSeparator] script) (by simp) ?_
  intro opcode data rest script read ih unwritten
  have shorter := length_of_getOp read
  rw [writeScriptCode_op _ read]
  by_cases separator : opcode = opCodeSeparator
  · obtain ⟨bytes, rfl, -, same⟩ := getOp_suffix read
    obtain rfl := same separator
    subst separator
    have written : (unwritten ++ opCodeSeparator :: rest).length - rest.length - 1 =
        unwritten.length := by
      rw [List.length_append, List.length_cons]
      omega
    have start := ih []
    rw [List.nil_append, List.nil_append] at start
    rw [if_pos rfl, findAndDelete_separator, written, List.take_left', start]
    rfl
  · obtain ⟨bytes, rfl, behind, -⟩ := getOp_suffix read
    have split : opcode :: bytes =
        (opcode :: bytes).take ((opcode :: bytes).length - rest.length) ++ rest := by
      obtain ⟨before, rfl⟩ := behind
      have sized : (opcode :: (before ++ rest)).length - rest.length =
          (opcode :: before).length := by
        simp only [List.length_cons, List.length_append]
        omega
      rw [sized, ← List.cons_append, List.take_left]
    rw [if_neg separator, findAndDelete_op read separator, ← List.append_assoc, ← ih]
    rw [List.append_assoc, ← split]

/-- **The streamed code** is the code after `FindAndDelete`. -/
theorem serializeScriptCode_eq {scriptCode : CScript} (parses : scriptCode.Parses) :
    serializeScriptCode scriptCode =
      serializeBytes (findAndDelete [opCodeSeparator] scriptCode) := by
  have sized := length_findAndDelete parses
  have written := writeScriptCode_eq parses []
  rw [List.nil_append, List.nil_append] at written
  rw [serializeScriptCode, serializeBytes, written, ← sized, Nat.add_sub_cancel]

/-! ## The changed transaction -/

namespace CTransactionSignatureSerializer

variable (s : CTransactionSignatureSerializer)

/-- An input as it is signed. -/
def signedInput (nInput : Nat) (txin : CTxIn) : CTxIn :=
  { prevout := txin.prevout
    scriptSig := if nInput = s.nIn then findAndDelete [opCodeSeparator] s.scriptCode else []
    nSequence := if nInput ≠ s.nIn ∧ (s.fHashSingle || s.fHashNone) then 0 else txin.nSequence }

def signedInputs : List CTxIn :=
  let vin := s.txTo.vin.mapIdx s.signedInput
  if s.fAnyoneCanPay then vin[s.nIn]?.toList else vin

def signedOutputs : List CTxOut :=
  if s.fHashNone then []
  else if s.fHashSingle then
    (s.txTo.vout.take (s.nIn + 1)).mapIdx fun i txout => if i < s.nIn then CTxOut.null else txout
  else s.txTo.vout

/-- The transaction as it is signed. -/
def signed : TxTmp :=
  ⟨s.txTo.nVersion, s.signedInputs, s.signedOutputs, s.txTo.nLockTime⟩

variable {s}

/-- An input, as the copy of the transaction has it. -/
theorem serializeInput_eq (parses : s.scriptCode.Parses) {nInput : Nat} {txin : CTxIn}
    (place : nInput = s.nIn ∨ s.fAnyoneCanPay = false)
    (found : s.txTo.vin[nInput]? = some txin) :
    s.serializeInput nInput = (s.signedInput nInput txin).serialize := by
  have same : (if s.fAnyoneCanPay = true then s.nIn else nInput) = nInput := by
    rcases place with rfl | every
    · exact ite_self _
    · rw [every]
      rfl
  unfold serializeInput
  dsimp only
  rw [same, found]
  dsimp only
  rw [CTxIn.serialize, signedInput]
  dsimp only
  by_cases here : nInput = s.nIn
  · rw [if_neg (not_not_intro here), if_neg (fun other => other.1 here), if_pos here,
      if_neg (fun other => other.1 here), serializeScriptCode_eq parses]
  · rw [if_pos here, if_neg here]
    split
    · rfl
    · rfl

/-- An output, as the copy of the transaction has it. -/
theorem serializeOutput_eq {nOutput : Nat} {txout : CTxOut}
    (found : s.signedOutputs[nOutput]? = some txout) :
    s.serializeOutput nOutput = txout.serialize := by
  unfold signedOutputs at found
  unfold serializeOutput
  split at found
  · cases found
  split at found
  · rename_i single
    rw [List.getElem?_mapIdx, Option.map_eq_some_iff] at found
    obtain ⟨original, found, rfl⟩ := found
    rw [List.getElem?_take] at found
    split at found
    · by_cases here : nOutput = s.nIn
      · rw [if_neg (fun other => other.2 here), if_neg (by omega), found]
      · rw [if_pos ⟨single, here⟩, if_pos (by omega)]
    · cases found
  · rename_i several
    rw [if_neg (fun other => several other.1), found]

/-- Items that are written by their index. -/
theorem flatMap_range {α β : Type*} {items : List α} {write : Nat → List β} {each : α → List β}
    (same : ∀ i item, items[i]? = some item → write i = each item) :
    (List.range items.length).flatMap write = items.flatMap each := by
  rw [List.flatMap_def, List.flatMap_def]
  congr 1
  apply List.ext_getElem
  · simp
  · intro i inRange listed
    rw [List.getElem_map, List.getElem_map, List.getElem_range]
    exact same i _ (List.getElem?_eq_getElem _)

/-- **The serializer writes the changed transaction.** -/
theorem serialize_eq (parses : s.scriptCode.Parses) (input : s.nIn < s.txTo.vin.length)
    (output : s.fHashSingle = true → s.fHashNone = false → s.nIn < s.txTo.vout.length) :
    s.serialize = s.signed.serialize := by
  have inputs : s.nInputs = s.signedInputs.length := by
    unfold nInputs signedInputs
    split
    · simp [input]
    · simp
  have outputs : s.nOutputs = s.signedOutputs.length := by
    unfold nOutputs signedOutputs
    split
    · rfl
    · rename_i some
      split
      · rename_i single
        have fits := output single (by simpa using some)
        simp only [List.length_mapIdx, List.length_take]
        omega
      · rfl
  rw [serialize, signed, TxTmp.serialize]
  dsimp only
  rw [inputs, outputs, flatMap_range, flatMap_range]
  · exact fun i txout found => serializeOutput_eq found
  · intro i txin found
    unfold signedInputs at found
    dsimp only at found
    split at found
    · rename_i only
      have place : s.serializeInput i = s.serializeInput s.nIn := by
        unfold serializeInput
        simp only [only, if_true]
      rw [List.getElem?_mapIdx, List.getElem?_eq_getElem input] at found
      rw [place, serializeInput_eq parses (.inl rfl) (List.getElem?_eq_getElem input)]
      cases i with
      | zero =>
          cases found
          rfl
      | succ i => cases found
    · rename_i every
      rw [List.getElem?_mapIdx, Option.map_eq_some_iff] at found
      obtain ⟨original, found, rfl⟩ := found
      exact serializeInput_eq parses (.inr (by simpa using every)) found

end CTransactionSignatureSerializer

/-! ## The two functions -/

variable {scriptCode : CScript} {txTo : CTransaction} {nIn : Nat} {nHashType : UInt32}

/-- The input that is signed gets the code, and the others nothing. -/
theorem blankScripts_vin (tx : TxTmp) (nIn : Nat) (code : CScript) :
    (tx.blankScripts nIn code).vin = tx.vin.mapIdx fun i txin =>
      { txin with scriptSig := if i = nIn then code else [] } := by
  apply List.ext_getElem?
  intro i
  rw [TxTmp.blankScripts]
  dsimp only
  rw [List.getElem?_modify, List.getElem?_map, List.getElem?_mapIdx]
  cases tx.vin[i]? with
  | none => rfl
  | some txin =>
      by_cases here : nIn = i
      · simp [here]
      · simp [here, Ne.symm here]

/-- The outputs stay when the scripts are blanked. -/
@[simp] theorem blankScripts_vout (tx : TxTmp) (nIn : Nat) (code : CScript) :
    (tx.blankScripts nIn code).vout = tx.vout := rfl

/-- The inputs of the copy, where the others may be updated at will or not. -/
theorem signedInput_mapIdx (s : CTransactionSignatureSerializer) (vin : List CTxIn) :
    vin.mapIdx s.signedInput =
      if s.fHashSingle || s.fHashNone then
        (vin.mapIdx fun i txin =>
          { txin with
            scriptSig := if i = s.nIn then findAndDelete [opCodeSeparator] s.scriptCode else [] }
        ).mapIdx fun i txin => if i ≠ s.nIn then { txin with nSequence := 0 } else txin
      else
        vin.mapIdx fun i txin =>
          { txin with
            scriptSig := if i = s.nIn then findAndDelete [opCodeSeparator] s.scriptCode
              else [] } := by
  split
  · rename_i free
    rw [List.mapIdx_mapIdx]
    congr 1
    funext i txin
    unfold CTransactionSignatureSerializer.signedInput
    rw [free]
    by_cases here : i = s.nIn
    · simp [here]
    · simp [here]
  · rename_i fixed
    congr 1
    funext i txin
    have kept : (if i ≠ s.nIn ∧ (s.fHashSingle || s.fHashNone) = true then 0
        else txin.nSequence) = txin.nSequence := if_neg fun free => fixed free.2
    unfold CTransactionSignatureSerializer.signedInput
    rw [kept]

/-- One input is left. -/
theorem onlyInput_eq {tx : TxTmp} (input : nIn < tx.vin.length) :
    tx.onlyInput nIn = { tx with vin := tx.vin[nIn]?.toList } := by
  unfold TxTmp.onlyInput
  obtain ⟨txin, found⟩ : ∃ txin, tx.vin[nIn]? = some txin := ⟨_, List.getElem?_eq_getElem input⟩
  rw [found]
  cases vin : tx.vin with
  | nil =>
      rw [vin] at input
      exact absurd input (Nat.not_lt_zero _)
  | cons first rest => rfl

/-- A copy with the signed inputs and outputs is the signed transaction once the other inputs are
dropped. -/
theorem signed_eq {s : CTransactionSignatureSerializer} {tx : TxTmp}
    (input : s.nIn < s.txTo.vin.length) (version : tx.nVersion = s.txTo.nVersion)
    (vin : tx.vin = s.txTo.vin.mapIdx s.signedInput) (vout : tx.vout = s.signedOutputs)
    (lock : tx.nLockTime = s.txTo.nLockTime) :
    (if s.fAnyoneCanPay then tx.onlyInput s.nIn else tx) = s.signed := by
  unfold CTransactionSignatureSerializer.signed CTransactionSignatureSerializer.signedInputs
  split
  · rw [onlyInput_eq (by rw [vin, List.length_mapIdx]; exact input), vin, version, vout, lock]
  · rw [← vin, ← vout, ← version, ← lock]

open CTransactionSignatureSerializer in
/-- **The streaming signature hash is the reference one.** -/
theorem signatureHash_eq_old (scriptCode : CScript) (txTo : CTransaction) (nIn : Nat)
    (nHashType : UInt32) (parses : scriptCode.Parses) :
    signatureHash scriptCode txTo nIn nHashType =
      signatureHashOld scriptCode txTo nIn nHashType := by
  unfold signatureHash signatureHashOld
  split
  · rfl
  rename_i inRange
  have input : nIn < txTo.vin.length := Nat.not_le.mp inRange
  let s := make txTo scriptCode nIn nHashType
  by_cases isNone : nHashType &&& 0x1f = SigHash.none
  · have notSingle : ¬ nHashType &&& 0x1f = SigHash.single := by
      rw [isNone]
      decide
    have free : (s.fHashSingle || s.fHashNone) = true := by simp [s, make, isNone]
    have output : s.fHashSingle = true → s.fHashNone = false → nIn < txTo.vout.length := by
      simp [s, make, isNone]
    dsimp only
    rw [if_neg (fun bad => notSingle bad.1), if_pos isNone, Option.map_some,
      serialize_eq parses input output]
    refine congrArg (fun tx : TxTmp =>
      some (tx.serialize ++ fixedBytes 4 nHashType.toNat)) (signed_eq input rfl ?_ ?_ rfl).symm
    · rw [TxTmp.freeSequences, blankScripts_vin, signedInput_mapIdx, if_pos free]
      rfl
    · simp [s, TxTmp.freeSequences, signedOutputs, make, isNone]
  by_cases isSingle : nHashType &&& 0x1f = SigHash.single
  · have free : (s.fHashSingle || s.fHashNone) = true := by simp [s, make, isSingle]
    have notNone : ¬ SigHash.single = SigHash.none := by decide
    dsimp only
    rw [blankScripts_vout]
    by_cases outOfRange : nIn ≥ txTo.vout.length
    · rw [if_pos ⟨isSingle, outOfRange⟩, if_neg isNone, if_pos isSingle, if_pos outOfRange]
      rfl
    rw [if_neg (fun bad => outOfRange bad.2), if_neg isNone, if_pos isSingle, if_neg outOfRange,
      Option.map_some, serialize_eq parses input (fun _ _ => Nat.not_le.mp outOfRange)]
    refine congrArg (fun tx : TxTmp =>
      some (tx.serialize ++ fixedBytes 4 nHashType.toNat)) (signed_eq input rfl ?_ ?_ rfl).symm
    · rw [TxTmp.freeSequences, TxTmp.resizeOutputs, blankScripts_vin,
        signedInput_mapIdx, if_pos free]
      rfl
    · simp [TxTmp.freeSequences, TxTmp.resizeOutputs,
        TxTmp.blankScripts, signedOutputs, make, isSingle, notNone]
  · have fixed : ¬ (s.fHashSingle || s.fHashNone) = true := by simp [s, make, isSingle, isNone]
    have output : s.fHashSingle = true → s.fHashNone = false → nIn < txTo.vout.length := by
      simp [s, make, isSingle]
    dsimp only
    rw [if_neg (fun bad => isSingle bad.1), if_neg isNone, if_neg isSingle, Option.map_some,
      serialize_eq parses input output]
    refine congrArg (fun tx : TxTmp =>
      some (tx.serialize ++ fixedBytes 4 nHashType.toNat)) (signed_eq input rfl ?_ ?_ rfl).symm
    · rw [blankScripts_vin, signedInput_mapIdx, if_neg fixed]
      rfl
    · simp [s, TxTmp.blankScripts, signedOutputs, make, isNone, isSingle]

/-- A script of a copy, a separator, a push of a separator, another separator and a check. -/
def separatedScript : CScript := [0x76, 0xab, 0x01, 0xab, 0xab, 0xac]

/-- A script with separators, hashed in both ways. -/
theorem signatureHash_eq_old_separated :
    signatureHash separatedScript
        { hash := 0
          vin := [{ prevout := ⟨1, 0⟩ }, { prevout := ⟨2, 0⟩ }]
          vout := [⟨5, [0x51], -10⟩, ⟨6, [0x52], -10⟩] } 1 3 =
      signatureHashOld separatedScript
        { hash := 0
          vin := [{ prevout := ⟨1, 0⟩ }, { prevout := ⟨2, 0⟩ }]
          vout := [⟨5, [0x51], -10⟩, ⟨6, [0x52], -10⟩] } 1 3 :=
  signatureHash_eq_old _ _ _ _ (by
    simp [Parses, separatedScript, instructions, CScript.getOp, pushSize, sizeWidth,
      Opcode.opPushData4, Opcode.opPushData1])

end GiantCore
