import GiantCore.Script.ScriptNumbers
import GiantCore.Zerocoin.Coins
import Mathlib.Algebra.Order.Ring.Nat
import Mathlib.Data.Nat.Bitwise
import Mathlib.Tactic.Common

/-! # The script of a zerocoin spend

`CTxIn(spend, denom)` writes an opcode, the length of the serialized spend as a script number and
the spend; `TxInToZerocoinSpend` skips `BIGNUM_SIZE` bytes. A script number has as many bytes as it
needs, so that the two fit for the lengths of two bytes and for no others
(`drop_spendScript_eq_iff`).
-/

namespace GiantCore

open CScript

/-! ## Serialization of a spend -/

/-- A number in a fixed number of bytes, from the lowest up. -/
def fixedBytes : Nat → Nat → List UInt8
  | 0, _ => []
  | count + 1, value => UInt8.ofNat (value % 256) :: fixedBytes count (value / 256)

@[simp] theorem length_fixedBytes (count value : Nat) :
    (fixedBytes count value).length = count := by
  induction count generalizing value with
  | zero => rfl
  | succ count ih => rw [fixedBytes, List.length_cons, ih]

/-- `WriteCompactSize`. -/
def writeCompactSize (nSize : Nat) : List UInt8 :=
  if nSize < 253 then [UInt8.ofNat nSize]
  else if nSize ≤ 0xffff then 253 :: fixedBytes 2 nSize
  else if nSize ≤ 0xffffffff then 254 :: fixedBytes 4 nSize
  else 255 :: fixedBytes 8 nSize

/-- A vector of bytes with its length in front. -/
def serializeBytes (bytes : List UInt8) : List UInt8 := writeCompactSize bytes.length ++ bytes

namespace CBigNum

/-- `getvch`: bytes from the lowest up, with the sign in the last bit. -/
def getvch (bn : CBigNum) : List UInt8 :=
  let bytes := lowBytes (bn.natAbs.log2 / 8 + 1) bn.natAbs
  match bytes.getLast? with
  | none => []
  | some top =>
      if top &&& 0x80 != 0 then bytes ++ [if bn < 0 then 0x80 else 0]
      else if bn < 0 then bytes.dropLast ++ [top ||| 0x80]
      else bytes

def serialize (bn : CBigNum) : List UInt8 := serializeBytes bn.getvch

end CBigNum

/-- `AccumulatorProofOfKnowledge`. -/
structure AccumulatorProofOfKnowledge where
  c_e : CBigNum := 0
  c_u : CBigNum := 0
  c_r : CBigNum := 0
  st_1 : CBigNum := 0
  st_2 : CBigNum := 0
  st_3 : CBigNum := 0
  t_1 : CBigNum := 0
  t_2 : CBigNum := 0
  t_3 : CBigNum := 0
  t_4 : CBigNum := 0
  s_alpha : CBigNum := 0
  s_beta : CBigNum := 0
  s_zeta : CBigNum := 0
  s_sigma : CBigNum := 0
  s_eta : CBigNum := 0
  s_epsilon : CBigNum := 0
  s_delta : CBigNum := 0
  s_xi : CBigNum := 0
  s_phi : CBigNum := 0
  s_gamma : CBigNum := 0
  s_psi : CBigNum := 0

/-- The numbers of the proof in the order of its serialization. -/
def AccumulatorProofOfKnowledge.numbers (pok : AccumulatorProofOfKnowledge) : List CBigNum :=
  [pok.c_e, pok.c_u, pok.c_r, pok.st_1, pok.st_2, pok.st_3, pok.t_1, pok.t_2, pok.t_3, pok.t_4,
    pok.s_alpha, pok.s_beta, pok.s_zeta, pok.s_sigma, pok.s_eta, pok.s_epsilon, pok.s_delta,
    pok.s_xi, pok.s_phi, pok.s_gamma, pok.s_psi]

/-- `SerialNumberSignatureOfKnowledge`. -/
structure SerialNumberSignatureOfKnowledge where
  s_notprime : List CBigNum := []
  sprime : List CBigNum := []
  hash : Uint256 := 0

/-- `CommitmentProofOfKnowledge`. -/
structure CommitmentProofOfKnowledge where
  s1 : CBigNum := 0
  s2 : CBigNum := 0
  s3 : CBigNum := 0
  challenge : CBigNum := 0

/-- `libzerocoin::CoinSpend`, with all that is serialized of it. -/
structure SpendProof where
  denomination : CoinDenomination
  ptxHash : Uint256 := 0
  accChecksum : UInt32 := 0
  accCommitmentToCoinValue : CBigNum := 0
  serialCommitmentToCoinValue : CBigNum := 0
  coinSerialNumber : CBigNum := 0
  accumulatorPoK : AccumulatorProofOfKnowledge := {}
  serialNumberSoK : SerialNumberSignatureOfKnowledge := {}
  commitmentPoK : CommitmentProofOfKnowledge := {}
  version : UInt8 := 2
  pubkey : List UInt8 := []
  vchSig : List UInt8 := []
  spendType : UInt8 := 0

def serializeNumbers (numbers : List CBigNum) : List UInt8 :=
  writeCompactSize numbers.length ++ numbers.flatMap CBigNum.serialize

/-- `SerializationOp` of a spend that is written. -/
def SpendProof.serialize (spend : SpendProof) : List UInt8 :=
  fixedBytes 4 spend.denomination.toInt.toNat ++ fixedBytes 32 spend.ptxHash.toNat ++
  fixedBytes 4 spend.accChecksum.toNat ++ spend.accCommitmentToCoinValue.serialize ++
  spend.serialCommitmentToCoinValue.serialize ++ spend.coinSerialNumber.serialize ++
  spend.accumulatorPoK.numbers.flatMap CBigNum.serialize ++
  serializeNumbers spend.serialNumberSoK.s_notprime ++
  serializeNumbers spend.serialNumberSoK.sprime ++
  fixedBytes 32 spend.serialNumberSoK.hash.toNat ++
  [spend.commitmentPoK.s1, spend.commitmentPoK.s2, spend.commitmentPoK.s3,
    spend.commitmentPoK.challenge].flatMap CBigNum.serialize ++
  [spend.version] ++ serializeBytes spend.pubkey ++ serializeBytes spend.vchSig ++
  [spend.spendType]

/-! ## The script -/

/-- The script that `CTxIn(spend, denom)` makes of a serialized spend. -/
def spendScript (data : List UInt8) : CScript :=
  opZerocoinSpend :: pushInt64 data.length ++ data

/-- `CTxIn::CTxIn(const libzerocoin::CoinSpend&, CoinDenomination)`. -/
def spendTxIn (spend : SpendProof) (denom : CoinDenomination) : CTxIn where
  prevout := .null
  scriptSig := spendScript spend.serialize
  nSequence := UInt32.ofNat denom.toInt.toNat

/-- What `TxInToZerocoinSpend` deserializes. -/
def dataTxIn (txin : CTxIn) : List UInt8 := txin.scriptSig.drop bignumSize

/-! ## The length of a pushed number -/

theorem topBit_iff {byte : Nat} (small : byte < 256) :
    (UInt8.ofNat byte &&& 0x80 != 0) = true ↔ 128 ≤ byte := by
  rw [signBit_iff, UInt8.toNat_ofNat', Nat.mod_eq_of_lt small]

/-- The length of a number of one byte. -/
theorem length_serializeNum_of_lt {n : Nat} (positive : 0 < n) (small : n < 256) :
    (serializeNum n).length = if 128 ≤ n then 2 else 1 := by
  have bytes : lowBytes 8 n = [UInt8.ofNat n] := by
    rw [lowBytes, if_neg (by omega), Nat.mod_eq_of_lt small, Nat.div_eq_of_lt small, lowBytes,
      if_pos rfl]
  have nonneg : ¬ (n : Int) < 0 := not_lt.mpr (Int.natCast_nonneg n)
  unfold serializeNum
  rw [Int.natAbs_natCast]
  dsimp only
  rw [bytes, List.getLast?_singleton]
  dsimp only
  by_cases large : 128 ≤ n
  · rw [if_pos ((topBit_iff small).mpr large), if_pos large]
    rfl
  · rw [if_neg (mt (topBit_iff small).mp large), if_neg nonneg, if_neg large]
    rfl

/-- The length of a number of two bytes. -/
theorem length_serializeNum_of_two {n : Nat} (least : 256 ≤ n) (most : n < 65536) :
    (serializeNum n).length = if 32768 ≤ n then 3 else 2 := by
  have bytes : lowBytes 8 n = [UInt8.ofNat (n % 256), UInt8.ofNat (n / 256)] := by
    rw [lowBytes, if_neg (by omega), lowBytes, if_neg (by omega),
      Nat.mod_eq_of_lt (by omega : n / 256 < 256), Nat.div_eq_of_lt (by omega : n / 256 < 256),
      lowBytes, if_pos rfl]
  have nonneg : ¬ (n : Int) < 0 := not_lt.mpr (Int.natCast_nonneg n)
  have small : n / 256 < 256 := by omega
  unfold serializeNum
  rw [Int.natAbs_natCast]
  dsimp only
  rw [bytes, List.getLast?_cons_cons, List.getLast?_singleton]
  dsimp only
  by_cases large : 32768 ≤ n
  · rw [if_pos ((topBit_iff small).mpr (by omega)), if_pos large]
    rfl
  · rw [if_neg (mt (topBit_iff small).mp (by omega)), if_neg nonneg, if_neg large]
    rfl

/-- A longer number has more than two bytes. -/
theorem two_lt_length_serializeNum {n : Nat} (large : 65536 ≤ n) :
    2 < (serializeNum n).length := by
  obtain ⟨first, second, third, rest, bytes⟩ : ∃ first second third rest,
      lowBytes 8 n = first :: second :: third :: rest := by
    rw [lowBytes, if_neg (by omega), lowBytes, if_neg (by omega), lowBytes, if_neg (by omega)]
    exact ⟨_, _, _, _, rfl⟩
  have nonneg : ¬ (n : Int) < 0 := not_lt.mpr (Int.natCast_nonneg n)
  unfold serializeNum
  rw [Int.natAbs_natCast]
  dsimp only
  rw [bytes]
  split
  · rename_i none
    exact absurd (List.getLast?_eq_none_iff.mp none) (List.cons_ne_nil _ _)
  · split
    · simp
    · simp

/-- **The pushed length fills the skipped bytes** exactly for lengths from 128 to 32767. -/
theorem length_pushInt64_eq_iff (n : Nat) :
    (pushInt64 n).length + 1 = bignumSize ↔ 128 ≤ n ∧ n ≤ 32767 := by
  unfold pushInt64 bignumSize
  by_cases single : (n : Int) = -1 ∨ (1 ≤ (n : Int) ∧ (n : Int) ≤ 16)
  · rw [if_pos single]
    simp only [List.length_singleton]
    omega
  rw [if_neg single]
  by_cases zero : (n : Int) = 0
  · rw [if_pos zero]
    simp only [List.length_singleton]
    omega
  rw [if_neg zero, List.length_cons]
  rcases Nat.lt_or_ge n 256 with small | more
  · rw [length_serializeNum_of_lt (by omega) small]
    split
    · omega
    · omega
  rcases Nat.lt_or_ge n 65536 with medium | large
  · rw [length_serializeNum_of_two more medium]
    split
    · omega
    · omega
  · have long := two_lt_length_serializeNum large
    omega

/-- What is read of a script is the data behind it, for exactly these lengths. -/
theorem drop_spendScript_eq_iff {data : List UInt8} (some_ : data ≠ []) :
    (spendScript data).drop bignumSize = data ↔ 128 ≤ data.length ∧ data.length ≤ 32767 := by
  rw [← length_pushInt64_eq_iff]
  unfold spendScript
  constructor
  · intro same
    have positive := List.length_pos_iff.mpr some_
    have lengths := congrArg List.length same
    rw [List.length_drop, List.cons_append, List.length_cons, List.length_append] at lengths
    omega
  · intro length
    rw [← length, List.cons_append, List.drop_succ_cons, List.drop_left]

theorem SpendProof.serialize_ne_nil (spend : SpendProof) : spend.serialize ≠ [] :=
  List.append_ne_nil_of_right_ne_nil _ (List.cons_ne_nil _ _)

/-- **A spend is read back from its input exactly if its serialization has at least 128 and at most
32767 bytes.** -/
theorem dataTxIn_spendTxIn_eq_iff (spend : SpendProof) (denom : CoinDenomination) :
    dataTxIn (spendTxIn spend denom) = spend.serialize ↔
      128 ≤ spend.serialize.length ∧ spend.serialize.length ≤ 32767 :=
  drop_spendScript_eq_iff spend.serialize_ne_nil

/-- A spend whose signature of knowledge has eighty numbers of 256 bytes on each side. -/
def largeSpend : SpendProof where
  denomination := .one
  serialNumberSoK :=
    { s_notprime := List.replicate 80 (2 ^ 2047), sprime := List.replicate 80 (2 ^ 2047) }

/-- The serialization of a spend can be longer than a number of two bytes says. -/
theorem not_dataTxIn_spendTxIn_large :
    ¬ ∀ (spend : SpendProof) (denom : CoinDenomination),
      dataTxIn (spendTxIn spend denom) = spend.serialize := by
  intro all
  have number : (CBigNum.serialize (2 ^ 2047)).length = 260 := by decide +kernel
  have numbers : (serializeNumbers (List.replicate 80 (2 ^ 2047))).length = 1 + 80 * 260 := by
    unfold serializeNumbers
    rw [List.length_append, List.length_flatMap, List.map_replicate, number, List.sum_replicate_nat,
      List.length_replicate]
    rfl
  have long : 32767 < largeSpend.serialize.length := by
    unfold SpendProof.serialize largeSpend
    simp only [List.length_append, numbers]
    omega
  exact absurd ((dataTxIn_spendTxIn_eq_iff largeSpend .one).mp (all largeSpend .one)).2
    (not_le.mpr long)

end GiantCore
