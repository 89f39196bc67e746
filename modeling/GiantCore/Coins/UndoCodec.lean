import GiantCore.Coins.Amounts
import GiantCore.Coins.Codec
import Mathlib.Data.Nat.Bitwise

/-! # The stored form of undo records

`CTxInUndo` writes the height with two flags, the version if there is a height, and the compressed
output. A record is read back where 64 bits hold the compressed amount and the output has no rounds
of its own (`records_round_trip`).
-/

namespace GiantCore.CTxInUndo

open GiantCore.Foundation

variable (lib : PubKeyLibrary) (undo : CTxInUndo)

/-- The height and the flags. -/
def nCode : Nat :=
  (undo.nHeight.toNat * 4 + (if undo.fCoinBase then 2 else 0) +
    (if undo.fCoinStake then 1 else 0)) % 2 ^ 32

def serialize : List UInt8 :=
  VarInt.write 5 false undo.nCode
    ((if 0 < undo.nHeight then VarInt.write 5 false undo.nVersion [] else []) ++
      CTxOutCompressor.serialize lib undo.txout)

/-- `GetSerializeSize`, an `unsigned int`. -/
def getSerializeSize : Nat :=
  (VarInt.size 5 undo.nCode + (if 0 < undo.nHeight then VarInt.size 5 undo.nVersion else 0) +
    CTxOutCompressor.getSerializeSize lib undo.txout) % 2 ^ 32

/-- Read a record where a new one stands. -/
def unserialize (s : List UInt8) : Option (CTxInUndo × List UInt8) := do
  let (nCode, s) ← VarInt.read 32 0 s
  let nHeight := nCode >>> 2
  let (nVersion, s) ← if 0 < nHeight then CCoins.readInt s else some (0, s)
  let (txout, s) ← CTxOutCompressor.unserialize lib s
  return ({ txout, fCoinBase := nCode &&& 2 != 0, fCoinStake := nCode &&& 1 != 0, nHeight,
            nVersion }, s)

/-- The bytes that are written are counted in 32 bits. -/
theorem getSerializeSize_eq :
    undo.getSerializeSize lib = (undo.serialize lib).length % 2 ^ 32 := by
  unfold getSerializeSize serialize
  rw [VarInt.length_write, List.length_append, CCoins.length_serialize_txout, Nat.add_assoc]
  split
  · rw [VarInt.length_write]
    rfl
  · rfl

variable {lib} {undo}

/-- The parts of the code. -/
theorem nCode_parts (low : 0 ≤ undo.nHeight) (high : undo.nHeight < 2 ^ 30) :
    undo.nCode < 2 ^ 32 ∧ ((undo.nCode >>> 2 : Nat) : Int) = undo.nHeight ∧
      (undo.nCode &&& 2 != 0) = undo.fCoinBase ∧ (undo.nCode &&& 1 != 0) = undo.fCoinStake := by
  have code : undo.nCode = undo.nHeight.toNat * 4 + (if undo.fCoinBase then 2 else 0) +
      if undo.fCoinStake then 1 else 0 := by
    rw [nCode]
    refine Nat.mod_eq_of_lt ?_
    split <;> split <;> omega
  have second : undo.nCode &&& 2 = (undo.nCode.testBit 1).toNat * 2 :=
    Nat.and_two_pow undo.nCode 1
  have first : undo.nCode &&& 1 = undo.nCode % 2 := Nat.and_one_is_mod undo.nCode
  have flag (bit : Bool) (value : Nat) (same : value % 2 = bit.toNat) :
      ((value % 2 != 0) = bit) ∧ ((decide (value % 2 = 1)).toNat * 2 != 0) = bit := by
    rw [same]
    cases bit <;> decide
  rw [second, first, Nat.shiftRight_eq_div_pow, Nat.testBit_eq_decide_div_mod_eq]
  refine ⟨?_, ?_, (flag _ _ ?_).2, (flag _ _ ?_).1⟩
  all_goals
    rw [code]
    cases undo.fCoinBase <;> cases undo.fCoinStake <;>
      simp only [Bool.false_eq_true, if_false, if_true, Bool.toNat_false, Bool.toNat_true] <;> omega

/-- An output is read back if 64 bits hold its compressed amount and it has no rounds. -/
theorem unserialize_serialize_output (restores : lib.Restores) {txout : CTxOut}
    (positive : 0 ≤ txout.nValue) (signed : txout.nValue < 2 ^ 63)
    (amount : CTxOutCompressor.pack txout.nValue.toNat < 2 ^ 64) (rounds : txout.nRounds = -10)
    (fits : txout.scriptPubKey.length + CScriptCompressor.nSpecialScripts < 2 ^ 32)
    (rest : List UInt8) :
    CTxOutCompressor.unserialize lib (CTxOutCompressor.serialize lib txout ++ rest) =
      some (txout, rest) := by
  obtain ⟨nValue, scriptPubKey, nRounds⟩ := txout
  dsimp only at positive signed amount rounds fits
  obtain ⟨value, rfl⟩ : ∃ value : Nat, nValue = (value : Int) :=
    ⟨Int.toNat nValue, (Int.toNat_of_nonneg positive).symm⟩
  rw [Int.toNat_natCast] at amount
  change ((value : Nat) : Int) < (2 ^ 63 : Int) at signed
  have held : CTxOutCompressor.Fits value := ⟨by omega, amount⟩
  have unsigned : CTxOutCompressor.toUInt64 value = value := by
    rw [CTxOutCompressor.toUInt64]
    omega
  have back :
      CTxOutCompressor.decompressAmount (CTxOutCompressor.compressAmount value) = value := by
    rw [(CTxOutCompressor.compressAmount_eq_pack held).2,
      (CTxOutCompressor.decompressAmount_eq_expand
        (by rw [CTxOutCompressor.expand_pack]; exact held.1)).2, CTxOutCompressor.expand_pack]
  have read : VarInt.read 64 0 (CTxOutCompressor.serialize lib ⟨value, scriptPubKey, nRounds⟩ ++
      rest) = some (CTxOutCompressor.compressAmount value,
        CScriptCompressor.serialize lib scriptPubKey ++ rest) := by
    rw [CTxOutCompressor.serialize, VarInt.write_append, unsigned]
    exact VarInt.read_write_eq (by decide) (CTxOutCompressor.compressAmount_lt value) _
  have same : (BitVec.ofNat 64 value).toInt = value := CCoins.toInt_ofNat_of_lt (by omega)
  subst rounds
  simp only [CTxOutCompressor.unserialize, read, Option.bind_eq_bind, Option.bind_some,
    CScriptCompressor.unserialize_serialize_script restores fits, back, same, Option.pure_def]
  rfl

/-- An undo record that comes back: the height leaves room for the flags, the version is not
negative, and the output is one that comes back. -/
structure Storable (undo : CTxInUndo) : Prop where
  height : 0 ≤ undo.nHeight ∧ undo.nHeight < 2 ^ 30
  version : 0 ≤ undo.nVersion ∧ undo.nVersion < 2 ^ 31
  value : 0 ≤ undo.txout.nValue ∧ undo.txout.nValue < 2 ^ 63
  amount : CTxOutCompressor.pack undo.txout.nValue.toNat < 2 ^ 64
  rounds : undo.txout.nRounds = -10
  script : undo.txout.scriptPubKey.length + CScriptCompressor.nSpecialScripts < 2 ^ 32

/-- The version comes back if there is a height, and is that of a new record else. -/
theorem unserialize_serialize_undo (restores : lib.Restores) (storable : undo.Storable)
    (rest : List UInt8) :
    unserialize lib (undo.serialize lib ++ rest) =
      some ({ undo with nVersion := if 0 < undo.nHeight then undo.nVersion else 0 }, rest) := by
  obtain ⟨small, height, base, stake⟩ := nCode_parts storable.height.1 storable.height.2
  have output := unserialize_serialize_output restores storable.value.1 storable.value.2
    storable.amount storable.rounds storable.script rest
  have code : VarInt.read 32 0 (undo.serialize lib ++ rest) = some (undo.nCode,
      (if 0 < undo.nHeight then VarInt.write 5 false undo.nVersion [] else []) ++
        (CTxOutCompressor.serialize lib undo.txout ++ rest)) := by
    rw [serialize, VarInt.write_append, List.append_assoc]
    exact VarInt.read_write_eq (by decide) small _
  by_cases some_ : 0 < undo.nHeight
  · have positive : 0 < undo.nCode >>> 2 := by omega
    have version := CCoins.readInt_write storable.version.1 storable.version.2
      (CTxOutCompressor.serialize lib undo.txout ++ rest)
    rw [if_pos some_, VarInt.write_append, List.nil_append] at code
    simp only [unserialize, code, Option.bind_eq_bind, Option.bind_some, if_pos positive, version,
      output, base, stake, height, if_pos some_, Option.pure_def]
  · have none : ¬ 0 < undo.nCode >>> 2 := by omega
    rw [if_neg some_, List.nil_append] at code
    simp only [unserialize, code, Option.bind_eq_bind, Option.bind_some, if_neg none, output, base,
      stake, height, if_neg some_, Option.pure_def]

/-- **Scripts and undo records are read back**, with what follows them, and their sizes count the
bytes that are written. -/
theorem records_round_trip (restores : lib.Restores) :
    (∀ script : CScript, script.length + CScriptCompressor.nSpecialScripts < 2 ^ 32 →
      ∀ rest, CScriptCompressor.unserialize lib (CScriptCompressor.serialize lib script ++ rest) =
        some (script, rest)) ∧
    (∀ undo : CTxInUndo, undo.Storable → ∀ rest, ∃ back,
      unserialize lib (undo.serialize lib ++ rest) = some (back, rest) ∧
        back.txout = undo.txout ∧ back.fCoinBase = undo.fCoinBase ∧
        back.fCoinStake = undo.fCoinStake ∧ back.nHeight = undo.nHeight ∧
        (0 < undo.nHeight → back.nVersion = undo.nVersion)) ∧
    (∀ undo : CTxInUndo, undo.getSerializeSize lib = (undo.serialize lib).length % 2 ^ 32) ∧
    ∀ params ∈ [CChainParams.main, CChainParams.testnet, CChainParams.regtest],
      ∀ nValue : Int, params.moneyRange nValue = true →
        CTxOutCompressor.pack nValue.toNat < 2 ^ 64 := by
  refine ⟨?_, ?_, fun undo => undo.getSerializeSize_eq lib, ?_⟩
  · intro script fits rest
    exact CScriptCompressor.unserialize_serialize_script restores fits rest
  · intro undo storable rest
    exact ⟨_, unserialize_serialize_undo restores storable rest, rfl, rfl, rfl, rfl,
      fun some_ => if_pos some_⟩
  · intro params network nValue range
    rw [CChainParams.moneyRange, Bool.and_eq_true, decide_eq_true_eq, decide_eq_true_eq] at range
    have limit : params.nMaxMoneyOut ≤ (10 ^ 16 : Int) := by
      simp only [List.mem_cons, List.not_mem_nil, or_false] at network
      rcases network with rfl | rfl | rfl <;> decide
    have least : nValue ≤ (10 ^ 16 : Int) := le_trans range.2 limit
    exact (CTxOutCompressor.fits_of_le (by omega)).2

/-- The undo record of an output of some amount, of a coinbase at height 7. -/
def undoOf (nValue : CAmount) : CTxInUndo where
  txout := ⟨nValue, [0x76, 0xa9, 19], -10⟩
  fCoinBase := true
  nHeight := 7
  nVersion := 2

/-- A coin with a script that begins like the payment to a key hash. -/
theorem records_round_trip_of_coin :
    ∃ back, unserialize CCoins.keylessLibrary
        ((undoOf COIN).serialize CCoins.keylessLibrary ++ [1]) = some (back, [1]) ∧
      back.txout = (undoOf COIN).txout ∧ back.fCoinBase = (undoOf COIN).fCoinBase ∧
      back.fCoinStake = (undoOf COIN).fCoinStake ∧ back.nHeight = (undoOf COIN).nHeight ∧
      (0 < (undoOf COIN).nHeight → back.nVersion = (undoOf COIN).nVersion) :=
  (records_round_trip CCoins.restores_keyless).2.1 (undoOf COIN)
    ⟨by decide, by decide, by decide, by decide, rfl, by decide⟩ [1]

/-- The largest amount of 64 bits does not come back. -/
theorem unserialize_serialize_largest :
    ¬ ∀ undo : CTxInUndo, 0 ≤ undo.nHeight → undo.nHeight < 2 ^ 30 → 0 ≤ undo.nVersion →
      undo.nVersion < 2 ^ 31 → 0 ≤ undo.txout.nValue → undo.txout.nValue < (2 ^ 63 : Int) →
      undo.txout.scriptPubKey.length + CScriptCompressor.nSpecialScripts < 2 ^ 32 →
      (unserialize CCoins.keylessLibrary (undo.serialize CCoins.keylessLibrary)).map
        (fun read => read.1.txout) = some undo.txout := by
  intro always
  have back := always (undoOf (2 ^ 63 - 1)) (by decide) (by decide) (by decide) (by decide)
    (by decide) (by decide) (by decide)
  exact absurd back (by decide +kernel)

end GiantCore.CTxInUndo
